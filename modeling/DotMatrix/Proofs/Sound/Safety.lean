import DotMatrix.Proofs.Sound.UnitWords

/-!
# The sound unit stays within its words

Whatever is written to a sound unit, however many dots pass and whichever snapshot it has
taken up, its frequencies, lengths, volumes and sums keep to their bounds, and no operation on
them goes beyond its word, divides by zero, looks outside a memory or goes on forever.
-/
namespace DotMatrix.Sound

/-- The units that come from any sample rate by any use, with any snapshot that they have
accepted on the way. -/
inductive Reached : Sound → Prop where
  | off (cgb : Bool) (rate : Nat) : Reached (off cgb rate)
  | load {s s' : Sound} {bytes rest : Bytes} :
    Reached s → layout.read bytes s = (s', .ok rest) → Reached s'
  | boot {s : Sound} : Reached s → Reached s.boot
  | write {s : Sound} (address : UInt16) (value : UInt8) :
    Reached s → Reached (s.write address value)
  | advance {s : Sound} (dots : Nat) : Reached s → Reached (s.advance dots)
  | takeFrames {s : Sound} : Reached s → Reached s.takeFrames.1

theorem Reached.inRange {s : Sound} (h : Reached s) : s.InRange := by
  induction h with
  | off cgb rate => exact inRange_off cgb rate
  | load _ hl ih => exact (reads_layout ih.resampler.supported _ _ _ hl).2.1
  | boot _ ih => exact ih.boot
  | write address value _ ih => exact ih.write address value
  | advance dots _ ih => exact ih.advance dots
  | takeFrames _ ih => exact ih.takeFrames

/-- A sum of levels over a number of dots is no larger than the levels allow, and its mean is
a sample without being cut. -/
structure Averaged (dots : Nat) (sum : Int) : Prop where
  bound : sum.natAbs ≤ dots * 15360
  sample : (Resampler.mean sum dots).toInt = sum.tdiv (max dots 1)

/-- The numbers of a unit keep to their bounds. -/
structure Tame (s : Sound) : Prop where
  frequencies : s.swept.square.frequency ≤ 2047 ∧ s.square.frequency ≤ 2047 ∧
    s.wave.frequency ≤ 2047
  periods : 0 < s.swept.square.period ∧ 0 < s.square.period ∧ 0 < s.wave.period ∧
    0 < s.noise.period
  lengths : s.swept.square.gate.length ≤ 64 ∧ s.square.gate.length ≤ 64 ∧
    s.wave.gate.length ≤ 256 ∧ s.noise.gate.length ≤ 64
  volumes : s.swept.square.envelope.volume ≤ 15 ∧ s.square.envelope.volume ≤ 15 ∧
    s.noise.envelope.volume ≤ 15
  countdown : 1 ≤ s.countdown ∧ s.countdown ≤ 8192
  phase : s.resampler.phase < clockRate
  left : Averaged s.resampler.dots s.resampler.left
  right : Averaged s.resampler.dots s.resampler.right

theorem averaged_of_bounded {dots : Nat} {sum : Int} (h : Bounded dots sum) :
    Averaged dots sum := by
  obtain ⟨hl, hl'⟩ := Resampler.tdiv_bounds h
  obtain ⟨hs, hs'⟩ := h
  have hmax : maxLevel = 15360 := rfl
  rw [hmax] at hs hs'
  refine ⟨by omega, ?_⟩
  rw [Resampler.mean, Int16.toInt_ofInt_of_le (by omega) (by omega)]

variable {s : Sound}

theorem InRange.tame (h : s.InRange) : s.Tame where
  frequencies := ⟨Nat.le_of_lt_succ h.swept.square.frequency,
    Nat.le_of_lt_succ h.square.frequency, Nat.le_of_lt_succ h.wave.frequency⟩
  periods := ⟨period_pos (by decide) h.swept.square.frequency,
    period_pos (by decide) h.square.frequency, period_pos (by decide) h.wave.frequency,
    s.noise.period_pos⟩
  lengths := ⟨h.swept.square.length, h.square.length, h.wave.length, h.noise.length⟩
  volumes := ⟨Nat.le_of_lt_succ h.swept.square.envelope.volume,
    Nat.le_of_lt_succ h.square.envelope.volume, Nat.le_of_lt_succ h.noise.envelope.volume⟩
  countdown := ⟨h.sequencer.countdownMin, h.sequencer.countdownMax⟩
  phase := h.resampler.phase
  left := averaged_of_bounded h.resampler.left
  right := averaged_of_bounded h.resampler.right

/-- Every unit that has been reached keeps to its bounds, and whatever it does next has a
result in its words: the passing of dots and every write. -/
theorem reached_within_words (h : Reached s) : s.Tame ∧
    (∀ dots, s.advanceInWords dots = some (s.advance dots)) ∧
      ∀ address value, s.writeInWords address value = some (s.write address value) :=
  ⟨h.inRange.tame, advanceInWords_eq h.inRange, writeInWords_eq h.inRange⟩

/-- A section with every bit set but for the dots of the frame, of which there are ten. -/
def loudSection : Bytes := List.replicate 143 0xFF ++ [10, 0, 0, 0] ++ List.replicate 16 0xFF

theorem reached_within_words_loud :
    ∃ s, layout.read loudSection (off true 44100) = (s, .ok []) ∧ s.Tame ∧
      (s.advanceInWords 70224).isSome ∧ (s.writeInWords 0xFF14 0xC7).isSome := by
  have hread : ∃ s, layout.read loudSection (off true 44100) = (s, .ok []) := ⟨_, Prod.ext rfl rfl⟩
  obtain ⟨s, hread⟩ := hread
  obtain ⟨htame, hadvance, hwrite⟩ := reached_within_words (.load (.off true 44100) hread)
  refine ⟨s, hread, htame, ?_, ?_⟩
  · rw [hadvance]
    rfl
  · rw [hwrite]
    rfl

end DotMatrix.Sound
