import DotMatrix.Proofs.Sound.ChannelWords
import DotMatrix.Proofs.Sound.Snapshot

/-!
# The sound unit in words

Mixing, the resampler, the sequencer, the passing of dots and the writes once more, in
arithmetic that may not go beyond its words: levels in signed words of 32 bits, their sums in
signed words of 64, the phase and the dots in words of 32, and mean levels in signed words of
16 bits. Of a unit in range every operation has a result, and it is the unit's own.
-/
namespace DotMatrix.Sound

open Width

/-! ## The mixer -/

def levelInWords (dac : Bool) (output : Nat) : Option Int := do
  if dac then
    let doubled ← signedWord 32 ((output : Int) * 2)
    signedWord 32 (doubled - 15)
  else return 0

def pannedInWords (sum : Int) : Nat → List Int → Option Int
  | _, [] => some sum
  | chosen, level :: rest => do
    let sum ← only (chosen % 2 = 1) (fun sum => signedWord 32 (sum + level)) sum
    pannedInWords sum (chosen / 2) rest

/-- The weight of a level at the lowest volume is half of 64. -/
def sideInWords (chosen volume : Nat) (levels : List Int) : Option Int := do
  let sum ← pannedInWords 0 chosen levels
  let factor ← signedWord 32 ((volume % 8 : Nat) + 1)
  let loud ← signedWord 32 (sum * factor)
  let scaled ← signedWord 32 (loud * 64)
  signedOver 32 scaled 2

def levelsInWords (s : Sound) : Option (List Int) := do
  let swept ← levelInWords s.swept.square.gate.dac (← s.swept.square.outputInWords)
  let square ← levelInWords s.square.gate.dac (← s.square.outputInWords)
  let wave ← levelInWords s.wave.gate.dac s.wave.output
  let noise ← levelInWords s.noise.gate.dac s.noise.output
  return [swept, square, wave, noise]

def mixInWords (s : Sound) : Option (Int × Int) := do
  if s.powered then
    let levels ← s.levelsInWords
    let left ← sideInWords (s.panning.toNat / 16) (s.volumes.toNat / 16) levels
    let right ← sideInWords s.panning.toNat s.volumes.toNat levels
    return (left, right)
  else return (0, 0)

variable {s : Sound}

theorem levelInWords_eq (dac : Bool) {output : Nat} (h : output < 16) :
    levelInWords dac output = some (level dac output) := by
  rw [levelInWords, level]
  split
  · rw [signedWord_of_bounds (by omega) (by omega), Option.bind_eq_bind, Option.bind_some,
      signedWord_of_bounds (by omega) (by omega), Int.mul_comm]
  · rfl

theorem pannedInWords_eq {levels : List Int} (h : ∀ l ∈ levels, -15 ≤ l ∧ l ≤ 15) (sum : Int)
    (chosen : Nat) (hl : -2 ^ 31 + 15 * levels.length ≤ sum)
    (hl' : sum + 15 * levels.length < 2 ^ 31) :
    pannedInWords sum chosen levels = some (sum + panned chosen levels) := by
  induction levels generalizing sum chosen with
  | nil => rw [pannedInWords, panned, Int.add_zero]
  | cons l rest ih =>
    obtain ⟨hlow, hhigh⟩ := h l List.mem_cons_self
    have hrest : ∀ k ∈ rest, -15 ≤ k ∧ k ≤ 15 := fun k hk => h k (List.mem_cons_of_mem l hk)
    rw [List.length_cons] at hl hl'
    rw [pannedInWords, panned]
    by_cases hc : chosen % 2 = 1
    · rw [decide_eq_true hc, if_pos hc, ← Int.add_assoc,
        ← ih hrest (sum + l) _ (by omega) (by omega)]
      change (signedWord 32 (sum + l) >>= _) = _
      rw [signedWord_of_bounds (by omega) (by omega)]
      rfl
    · rw [decide_eq_false hc, if_neg hc, Int.zero_add, ← ih hrest sum _ (by omega) (by omega)]
      rfl

theorem sideInWords_eq {levels : List Int} (h : ∀ l ∈ levels, -15 ≤ l ∧ l ≤ 15)
    (hl : levels.length = 4) (chosen volume : Nat) :
    sideInWords chosen volume levels = some (side chosen volume levels) := by
  obtain ⟨hp, hp'⟩ := panned_bounds h chosen
  obtain ⟨hs, hs'⟩ := side_bounds h hl chosen volume
  have hunit : unitGain = 32 := rfl
  have hmax : maxLevel = 15360 := rfl
  rw [side, hunit, hmax] at hs hs'
  rw [sideInWords, pannedInWords_eq h 0 chosen (by omega) (by omega), Int.zero_add, side, hunit]
  rw [Option.bind_eq_bind, Option.bind_some, signedWord_of_bounds (by omega) (by omega)]
  change (signedWord 32 (panned chosen levels * (volume % 8 + 1)) >>= _) = _
  generalize panned chosen levels * (volume % 8 + 1) = loud at *
  have htwice : loud * 64 = loud * 32 * 2 := by omega
  have hhalf : (loud * 64).tdiv 2 = loud * 32 := by
    rw [htwice]
    exact Int.mul_tdiv_cancel _ (by decide)
  rw [signedWord_of_bounds (by omega) (by omega), Option.bind_eq_bind, Option.bind_some,
    signedWord_of_bounds (by omega) (by omega), Option.bind_some,
    signedOver_of_bounds (by decide) (by omega) (by omega), hhalf]

theorem levelsInWords_eq (h : s.InRange) : s.levelsInWords = some s.levels := by
  rw [levelsInWords, Square.outputInWords_eq h.swept.square, Square.outputInWords_eq h.square,
    levelInWords_eq _ h.wave.output_lt, levelInWords_eq _ h.noise.output_lt]
  simp only [Option.bind_eq_bind, Option.bind_some,
    levelInWords_eq _ h.swept.square.output_lt, levelInWords_eq _ h.square.output_lt]
  rfl

theorem mixInWords_eq (h : s.InRange) : s.mixInWords = some s.mix := by
  have hl := h.levels_bounds
  rw [mixInWords, mix, levelsInWords_eq h]
  simp only [Option.bind_eq_bind, Option.bind_some, sideInWords_eq hl rfl]
  split <;> rfl

/-! ## The resampler -/

def meanInWords (sum : Int) (dots : Nat) : Option Int16 := do
  let mean ← signedOver 64 sum (max dots 1)
  return Int16.ofInt (← signedWord 16 mean)

namespace Resampler

/-- Dots until the next frame: a quotient, rounded up. -/
def untilFrameInWords (r : Resampler) : Option Nat := do
  let rest ← minus clockRate r.phase
  let whole ← quotient rest r.rate
  only (rest % r.rate ≠ 0) (fun whole => word 32 (whole + 1)) whole

def emitInWords (r : Resampler) : Option (Resampler × Audio.Frame) := do
  let phase ← minus r.phase clockRate
  let (leftFilter, left) := r.leftFilter.pass (← meanInWords r.left r.dots)
  let (rightFilter, right) := r.rightFilter.pass (← meanInWords r.right r.dots)
  let r := { r with phase, left := 0, right := 0, dots := 0, leftFilter, rightFilter }
  return (r, ⟨left, right⟩)

def advanceInWords (dots : Nat) (levels : Int × Int) (r : Resampler) :
    Option (Resampler × Option Audio.Frame) := do
  let left ← signedWord 64 (r.left + (← signedWord 64 (levels.1 * dots)))
  let right ← signedWord 64 (r.right + (← signedWord 64 (levels.2 * dots)))
  let phase ← word 32 (r.phase + (← word 32 (dots * r.rate)))
  let r := { r with phase, left, right, dots := ← word 32 (r.dots + dots) }
  if clockRate ≤ r.phase then
    let (r, frame) ← r.emitInWords
    return (r, some frame)
  else return (r, none)

variable {r : Resampler}

/-- The mean of what dots can have added up to is a level itself. -/
theorem tdiv_bounds {sum : Int} {dots : Nat} (h : Bounded dots sum) :
    -maxLevel ≤ sum.tdiv (max dots 1) ∧ sum.tdiv (max dots 1) ≤ maxLevel := by
  obtain ⟨hl, hl'⟩ := h
  have hmax : maxLevel = 15360 := rfl
  have hq : (sum.tdiv (max dots 1)).natAbs ≤ 15360 := by
    rw [Int.natAbs_tdiv]
    refine Nat.div_le_of_le_mul ?_
    rw [hmax] at hl hl'
    omega
  omega

theorem meanInWords_eq {sum : Int} {dots : Nat} (h : Bounded dots sum) :
    meanInWords sum dots = some (mean sum dots) := by
  obtain ⟨hl, hl'⟩ := tdiv_bounds h
  have hmax : maxLevel = 15360 := rfl
  rw [meanInWords, signedOver_of_bounds (by omega) (by omega) (by omega), Option.bind_eq_bind,
    Option.bind_some, signedWord_of_bounds (by omega) (by omega)]
  rfl

/-- A quotient that is rounded up. -/
theorem ceil_eq {a b : Nat} (h : 0 < b) :
    (if a % b ≠ 0 then a / b + 1 else a / b) = (a + (b - 1)) / b := by
  have hdiv := Nat.div_add_mod a b
  have hmod := Nat.mod_lt a h
  symm
  split
  · apply Nat.div_eq_of_lt_le
    · rw [Nat.add_mul, Nat.mul_comm (a / b)]
      omega
    · rw [Nat.add_mul, Nat.add_mul, Nat.mul_comm (a / b)]
      omega
  · apply Nat.div_eq_of_lt_le
    · rw [Nat.mul_comm (a / b)]
      omega
    · rw [Nat.add_mul, Nat.mul_comm (a / b)]
      omega

theorem untilFrameInWords_eq (h : r.InRange) : r.untilFrameInWords = some r.untilFrame := by
  have hphase := h.phase
  have hrate : 0 < r.rate := Nat.lt_of_lt_of_le (by decide) h.supported.min
  have hclock : clockRate < 2 ^ 31 := by decide
  have hwhole := Nat.div_le_self (clockRate - r.phase) r.rate
  rw [untilFrameInWords, minus_of_le (Nat.le_of_lt hphase), Option.bind_eq_bind, Option.bind_some,
    quotient_of_ne_zero (Nat.ne_of_gt hrate), Option.bind_some, only_eq (g := (· + 1)), untilFrame,
    ← ceil_eq hrate]
  · simp only [decide_eq_true_eq]
  · exact fun _ => word_of_lt (by omega)

theorem emitInWords_eq (hp : clockRate ≤ r.phase) (hl : Bounded r.dots r.left)
    (hr : Bounded r.dots r.right) : r.emitInWords = some r.emit := by
  rw [emitInWords, minus_of_le hp, meanInWords_eq hl, meanInWords_eq hr]
  rfl

theorem advanceInWords_eq (h : r.InRange) {dots : Nat} (hd : dots ≤ r.untilFrame)
    {levels : Int × Int} (hl : -maxLevel ≤ levels.1 ∧ levels.1 ≤ maxLevel)
    (hr : -maxLevel ≤ levels.2 ∧ levels.2 ≤ maxLevel) :
    r.advanceInWords dots levels = some (r.advance dots levels) := by
  have hmax : maxLevel = 15360 := rfl
  have hclock : clockRate = 4194304 := rfl
  have hphase := mul_rate_lt h.supported h.phase hd
  have hrate : r.rate ≤ 192000 := h.supported.max
  have hdots := h.dots_lt
  have hfew : dots * 8000 ≤ dots * r.rate := Nat.mul_le_mul_left dots h.supported.min
  have hleft := h.left.add hl (n := dots)
  have hright := h.right.add hr (n := dots)
  have hadded {level : Int} (hb : -maxLevel ≤ level ∧ level ≤ maxLevel) :
      -2 ^ 63 ≤ level * dots ∧ level * dots < 2 ^ 63 := by
    obtain ⟨h₁, h₂⟩ := bounded_zero.add hb (n := dots)
    rw [hmax] at h₁ h₂
    omega
  have hsum {sum level : Int} (hb : Bounded (r.dots + dots) (sum + level * dots)) :
      -2 ^ 63 ≤ sum + level * dots ∧ sum + level * dots < 2 ^ 63 := by
    obtain ⟨h₁, h₂⟩ := hb
    rw [hmax] at h₁ h₂
    omega
  rw [advanceInWords, signedWord_of_bounds (hadded hl).1 (hadded hl).2,
    signedWord_of_bounds (hadded hr).1 (hadded hr).2, word_of_lt (n := dots * r.rate) (by omega),
    word_of_lt (n := r.dots + dots) (by omega)]
  simp only [Option.bind_eq_bind, Option.bind_some]
  rw [signedWord_of_bounds (hsum hleft).1 (hsum hleft).2,
    signedWord_of_bounds (hsum hright).1 (hsum hright).2, word_of_lt (by omega)]
  simp only [Option.bind_some]
  rw [advance]
  dsimp only
  split
  · rename_i hframe
    rw [emitInWords_eq (r := { r with
      phase := r.phase + dots * r.rate
      left := r.left + levels.1 * dots
      right := r.right + levels.2 * dots
      dots := r.dots + dots }) hframe hleft hright]
    rfl
  · rfl

end Resampler

/-! ## The sequencer -/

def clockLengthsInWords (s : Sound) : Option Sound := do
  return { s with
    swept := ← s.swept.mapSquareInWords Square.clockLengthInWords
    square := ← s.square.clockLengthInWords
    wave := ← s.wave.clockLengthInWords
    noise := ← s.noise.clockLengthInWords }

def clockSweepInWords (s : Sound) : Option Sound := do
  let swept ← s.swept.clockSweepInWords
  let frequency := swept.square.frequency
  let written ← storeAt s.written lowFrequencyRegister (UInt8.ofNat frequency)
  let old ← byteAt written highFrequencyRegister
  let high ← word 8 (frequency / 256)
  let written ← storeAt written highFrequencyRegister ((old &&& 0xF8) ||| UInt8.ofNat (high % 8))
  return { s with swept, written }

def clockEnvelopesInWords (s : Sound) : Option Sound := do
  return { s with
    swept := ← s.swept.mapSquareInWords Square.clockEnvelopeInWords
    square := ← s.square.clockEnvelopeInWords
    noise := ← s.noise.clockEnvelopeInWords }

def clockSequencerInWords (s : Sound) : Option Sound := do
  let step := s.step
  let next ← word 8 (step + 1)
  let s ← only (step % 2 = 0) clockLengthsInWords
    { s with step := next % sequencerSteps, countdown := sequencerDots }
  let s ← only (step = 2 ∨ step = 6) clockSweepInWords s
  only (step = 7) clockEnvelopesInWords s

def advanceChannelsInWords (dots : Nat) (s : Sound) : Option Sound := do
  let swept ← s.swept.mapSquareInWords (Square.advanceInWords dots)
  let square ← s.square.advanceInWords dots
  let wave ← s.wave.advanceInWords s.waveRam dots
  let noise ← s.noise.advanceInWords dots
  let countdown ← minus s.countdown dots
  only (countdown = 0) clockSequencerInWords { s with swept, square, wave, noise, countdown }

theorem clockLengthsInWords_eq (s : Sound) : s.clockLengthsInWords = some s.clockLengths := by
  rw [clockLengthsInWords, Swept.mapSquareInWords_eq (Square.clockLengthInWords_eq _),
    Square.clockLengthInWords_eq, Wave.clockLengthInWords_eq, Noise.clockLengthInWords_eq]
  rfl

theorem clockEnvelopesInWords_eq (s : Sound) :
    s.clockEnvelopesInWords = some s.clockEnvelopes := by
  rw [clockEnvelopesInWords, Swept.mapSquareInWords_eq (Square.clockEnvelopeInWords_eq _),
    Square.clockEnvelopeInWords_eq, Noise.clockEnvelopeInWords_eq]
  rfl

theorem clockSweepInWords_eq (h : s.swept.InRange) : s.clockSweepInWords = some s.clockSweep := by
  have hf := h.clockSweep.square.frequency
  rw [clockSweepInWords, Swept.clockSweepInWords_eq h]
  simp only [Option.bind_eq_bind, Option.bind_some]
  rw [storeAt_of_lt _ (by decide), Option.bind_some, byteAt_of_lt _ (by decide), Option.bind_some,
    word_of_lt (by omega), Option.bind_some, storeAt_of_lt _ (by decide), Option.bind_some,
    Memory.get_set_of_ne _ _ (by decide)]
  rfl

theorem clockSequencerInWords_eq (hc : s.swept.InRange) (hs : s.step < sequencerSteps) :
    s.clockSequencerInWords = some s.clockSequencer := by
  have hsteps : sequencerSteps = 8 := rfl
  have hlengths := hc.mapSquare fun _ hs => hs.clockLength
  rw [clockSequencerInWords, word_of_lt (by omega), Option.bind_eq_bind, Option.bind_some,
    only_eq fun _ => clockLengthsInWords_eq _, Option.bind_eq_bind, Option.bind_some,
    only_eq (g := clockSweep) fun _ => clockSweepInWords_eq ?_, Option.bind_some,
    only_eq fun _ => clockEnvelopesInWords_eq _, clockSequencer]
  · simp only [decide_eq_true_eq]
  · split
    · exact hlengths
    · exact hc

theorem advanceChannelsInWords_eq (h : s.InRange) {dots : Nat} (hd : dots ≤ s.countdown) :
    s.advanceChannelsInWords dots = some (s.advanceChannels dots) := by
  have hc := h.swept.mapSquare fun _ hs => hs.advance dots
  rw [advanceChannelsInWords, Swept.mapSquareInWords_eq (Square.advanceInWords_eq h.swept.square _),
    Square.advanceInWords_eq h.square, Wave.advanceInWords_eq h.wave,
    Noise.advanceInWords_eq h.noise, minus_of_le hd]
  simp only [Option.bind_eq_bind, Option.bind_some]
  refine (only_eq (g := clockSequencer) ?_).trans ?_
  · exact fun _ => clockSequencerInWords_eq hc h.sequencer.step
  · rw [advanceChannels]
    simp only [decide_eq_true_eq]

/-! ## The passing of dots -/

def untilEventInWords (s : Sound) : Option Nat := do
  let frame := max (← s.resampler.untilFrameInWords) 1
  return if s.powered then min frame s.countdown else frame

def advanceWithinInWords (dots : Nat) (s : Sound) : Option Sound := do
  let levels ← s.mixInWords
  let s ← only s.powered (advanceChannelsInWords dots) s
  let (resampler, frame) ← s.resampler.advanceInWords dots levels
  match frame with
  | some frame => return { s with resampler, frames := s.frames.push frame }
  | none => return { s with resampler }

/-- A number of dots, from event to event until none is left. -/
def advanceInWords (dots : Nat) (s : Sound) : Option Sound := do
  if 0 < dots then
    let run := min dots (← s.untilEventInWords)
    let s ← s.advanceWithinInWords run
    s |>.advanceInWords (← minus dots run)
  else return s
partial_fixpoint

theorem untilEventInWords_eq (h : s.InRange) : s.untilEventInWords = some s.untilEvent := by
  have hframe := Resampler.one_le_untilFrame h.resampler.supported h.resampler.phase
  have hcountdown := h.sequencer.countdownMin
  rw [untilEventInWords, Resampler.untilFrameInWords_eq h.resampler, untilEvent,
    Option.bind_eq_bind, Option.bind_some, Nat.max_eq_left hframe]
  split
  · rw [Nat.max_eq_right (Nat.le_min.mpr ⟨hframe, hcountdown⟩)]
    rfl
  · rw [Nat.max_eq_right hframe]
    rfl

theorem advanceWithinInWords_eq (h : s.InRange) {dots : Nat} (hd : dots ≤ s.untilEvent) :
    s.advanceWithinInWords dots = some (s.advanceWithin dots) := by
  have hmix := h.mix_bounds
  have hu := le_untilFrame h.resampler.supported h.resampler.phase hd
  have hc (hp : s.powered = true) := le_countdown h.sequencer.countdownMin hp hd
  have hr : (if s.powered then s.advanceChannels dots else s).resampler = s.resampler := by
    split
    · exact resampler_advanceChannels dots s
    · rfl
  have hadvance := Resampler.advanceInWords_eq h.resampler hu hmix.1 hmix.2
  rw [advanceWithinInWords, mixInWords_eq h, Option.bind_eq_bind, Option.bind_some,
    only_eq fun hp => advanceChannelsInWords_eq h (hc hp), Option.bind_eq_bind, Option.bind_some,
    hr, hadvance, advanceWithin]
  dsimp only
  rw [hr, Option.bind_eq_bind, Option.bind_some]
  rcases s.resampler.advance dots s.mix with ⟨r, frame⟩
  cases frame with
  | some frame => rfl
  | none => rfl

theorem advanceInWords_eq (h : s.InRange) (dots : Nat) :
    s.advanceInWords dots = some (s.advance dots) := by
  induction dots, s using Sound.advance.induct with
  | case1 s =>
    rw [Sound.advance, if_pos rfl, advanceInWords, if_neg (Nat.lt_irrefl 0)]
    rfl
  | case2 dots s hd run ih =>
    have hrun : run ≤ s.untilEvent := Nat.min_le_right _ _
    rw [Sound.advance, if_neg hd, advanceInWords, if_pos (Nat.pos_of_ne_zero hd),
      untilEventInWords_eq h]
    simp only [Option.bind_eq_bind, Option.bind_some]
    rw [advanceWithinInWords_eq h hrun, Option.bind_some, minus_of_le (Nat.min_le_left _ _),
      Option.bind_some]
    exact ih (h.advanceWithin hrun)

/-! ## Writes -/

def writeUnpoweredInWords (s : Sound) (address : UInt16) (value : UInt8) : Option Sound := do
  match address.toNat with
  | 0xFF11 => return { s with swept := ← s.swept.mapSquareInWords (·.writeLengthInWords value) }
  | 0xFF16 => return { s with square := ← s.square.writeLengthInWords value }
  | 0xFF1B => return { s with wave := ← s.wave.writeLengthInWords value }
  | 0xFF20 => return { s with noise := ← s.noise.writeLengthInWords value }
  | _ => return s.writeUnpowered address value

def writePoweredInWords (s : Sound) (address : UInt16) (value : UInt8) : Option Sound := do
  match address.toNat with
  | 0xFF11 => return { s with swept := ← s.swept.mapSquareInWords (·.writeDutyInWords value) }
  | 0xFF14 => return { s with swept := ← s.swept.writeControlInWords s.late value }
  | 0xFF16 => return { s with square := ← s.square.writeDutyInWords value }
  | 0xFF19 => return { s with square := ← s.square.writeControlInWords s.late value }
  | 0xFF1B => return { s with wave := ← s.wave.writeLengthInWords value }
  | 0xFF1E => return { s with wave := ← s.wave.writeControlInWords s.late value }
  | 0xFF20 => return { s with noise := ← s.noise.writeLengthInWords value }
  | 0xFF23 => return { s with noise := ← s.noise.writeControlInWords s.late value }
  -- A write to another register takes the value apart by masks and fixed shifts alone.
  | _ => return s.writePowered address value

def waveCellInWords (s : Sound) (address : UInt16) : Option Nat :=
  if s.wave.gate.on then some (s.wave.position / 2) else minus address.toNat 0xFF30

def writeInWords (s : Sound) (address : UInt16) (value : UInt8) : Option Sound := do
  if inWaveRam address then
    return { s with waveRam := ← storeAt s.waveRam (← s.waveCellInWords address) value }
  else if address = 0xFF26 then return s.writePower value
  else if !isRegister address then return s
  else if s.powered then
    let i ← minus address.toNat firstRegister
    writePoweredInWords { s with written := ← storeAt s.written i value } address value
  else s.writeUnpoweredInWords address value

theorem writeUnpoweredInWords_eq (s : Sound) (address : UInt16) (value : UInt8) :
    s.writeUnpoweredInWords address value = some (s.writeUnpowered address value) := by
  rw [writeUnpoweredInWords]
  split
  · rename_i ha
    rw [writeUnpowered, ha, Swept.mapSquareInWords_eq (f := (·.writeLength value))
      (Square.writeLengthInWords_eq _ _)]
    rfl
  · rename_i ha
    rw [writeUnpowered, ha, Square.writeLengthInWords_eq]
    rfl
  · rename_i ha
    rw [writeUnpowered, ha, Wave.writeLengthInWords_eq]
    rfl
  · rename_i ha
    rw [writeUnpowered, ha, Noise.writeLengthInWords_eq]
    rfl
  · rfl

theorem writePoweredInWords_eq (h : s.InRange) (address : UInt16) (value : UInt8) :
    s.writePoweredInWords address value = some (s.writePowered address value) := by
  rw [writePoweredInWords]
  split
  · rename_i ha
    rw [writePowered, ha, Swept.mapSquareInWords_eq (f := (·.writeDuty value))
      (Square.writeDutyInWords_eq _ _)]
    rfl
  · rename_i ha
    rw [writePowered, ha, Swept.writeControlInWords_eq h.swept]
    rfl
  · rename_i ha
    rw [writePowered, ha, Square.writeDutyInWords_eq]
    rfl
  · rename_i ha
    rw [writePowered, ha, Square.writeControlInWords_eq]
    rfl
  · rename_i ha
    rw [writePowered, ha, Wave.writeLengthInWords_eq]
    rfl
  · rename_i ha
    rw [writePowered, ha, Wave.writeControlInWords_eq]
    rfl
  · rename_i ha
    rw [writePowered, ha, Noise.writeLengthInWords_eq]
    rfl
  · rename_i ha
    rw [writePowered, ha, Noise.writeControlInWords_eq h.noise]
    rfl
  · rfl

theorem waveCellInWords_eq (h : s.wave.InRange) {address : UInt16}
    (ha : inWaveRam address = true) :
    s.waveCellInWords address = some (s.waveCell address) ∧ s.waveCell address < 16 := by
  have hp := h.position
  rw [inWaveRam, Bool.and_eq_true, decide_eq_true_eq, decide_eq_true_eq, UInt16.le_iff_toNat_le,
    UInt16.le_iff_toNat_le] at ha
  have hlow : 0xFF30 ≤ address.toNat := ha.1
  have hhigh : address.toNat ≤ 0xFF3F := ha.2
  rw [waveCellInWords, waveCell, minus_of_le hlow]
  split
  · exact ⟨rfl, by omega⟩
  · exact ⟨congrArg some (by omega), by omega⟩

theorem register_bounds {address : UInt16} (h : isRegister address = true) :
    firstRegister ≤ address.toNat ∧ address.toNat - firstRegister < registerCount := by
  rw [isRegister, Bool.and_eq_true, decide_eq_true_eq, decide_eq_true_eq, UInt16.le_iff_toNat_le,
    UInt16.le_iff_toNat_le] at h
  have hlow : 0xFF10 ≤ address.toNat := h.1
  have hhigh : address.toNat ≤ 0xFF25 := h.2
  rw [firstRegister, registerCount]
  omega

theorem writeInWords_eq (h : s.InRange) (address : UInt16) (value : UInt8) :
    s.writeInWords address value = some (s.write address value) := by
  rw [writeInWords, write]
  split
  · rename_i hwave
    obtain ⟨hcell, hlt⟩ := waveCellInWords_eq h.wave hwave
    rw [hcell, Option.bind_eq_bind, Option.bind_some, storeAt_of_lt _ hlt]
    rfl
  split
  · rfl
  split
  · rfl
  rename_i hregister
  rw [Bool.not_eq_true', Bool.not_eq_false] at hregister
  obtain ⟨hfirst, hlt⟩ := register_bounds hregister
  split
  · have hw : InRange { s with
        written := s.written.set (address.toNat - firstRegister) value } := { h with }
    rw [minus_of_le hfirst, Option.bind_eq_bind, Option.bind_some, storeAt_of_lt _ hlt]
    exact writePoweredInWords_eq hw address value
  · exact writeUnpoweredInWords_eq s address value

end DotMatrix.Sound
