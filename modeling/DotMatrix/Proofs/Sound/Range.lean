import DotMatrix.Proofs.Sound.Channels
import DotMatrix.Sound.Advance
import DotMatrix.Sound.Layout
import DotMatrix.Sound.Registers

/-!
# The ranges of the sound unit

The sums of the resampler stay within what their dots can have added up to, and its phase
short of a frame. `InRange` survives any snapshot that is accepted; `Paced` is what holds
besides as long as no foreign snapshot has been loaded: a frame has not had more dots
than its phase tells.
-/
namespace DotMatrix.Sound

/-! ## Levels -/

/-- The sum is within what `dots` dots can have added up to. -/
def Bounded (dots : Nat) (sum : Int) : Prop := -(dots * maxLevel) ≤ sum ∧ sum ≤ dots * maxLevel

theorem level_bounds (dac : Bool) {output : Nat} (h : output < 16) :
    -15 ≤ level dac output ∧ level dac output ≤ 15 := by
  rw [level]
  split <;> omega

theorem panned_bounds {levels : List Int} (h : ∀ l ∈ levels, -15 ≤ l ∧ l ≤ 15) (chosen : Nat) :
    -(15 * levels.length) ≤ panned chosen levels ∧ panned chosen levels ≤ 15 * levels.length := by
  induction levels generalizing chosen with
  | nil => exact ⟨Int.le_refl _, Int.le_refl _⟩
  | cons l rest ih =>
    obtain ⟨hl, hl'⟩ := h l List.mem_cons_self
    obtain ⟨hr, hr'⟩ := ih (fun k hk => h k (List.mem_cons_of_mem l hk)) (chosen / 2)
    rw [panned, List.length_cons]
    split <;> omega

theorem side_bounds {levels : List Int} (h : ∀ l ∈ levels, -15 ≤ l ∧ l ≤ 15)
    (hl : levels.length = 4) (chosen volume : Nat) :
    -maxLevel ≤ side chosen volume levels ∧ side chosen volume levels ≤ maxLevel := by
  obtain ⟨hp, hp'⟩ := panned_bounds h chosen
  have hg : (0 : Int) ≤ volume % 8 + 1 := by omega
  have hlow := Int.mul_le_mul_of_nonneg_right hp hg
  have hhigh := Int.mul_le_mul_of_nonneg_right hp' hg
  rw [hl] at hlow hhigh
  rw [side, maxLevel, unitGain]
  omega

theorem Bounded.add {dots n : Nat} {sum l : Int} (h : Bounded dots sum)
    (hl : -maxLevel ≤ l ∧ l ≤ maxLevel) : Bounded (dots + n) (sum + l * n) := by
  obtain ⟨hs, hs'⟩ := h
  have hn : (0 : Int) ≤ n := Int.natCast_nonneg n
  have hlow := Int.mul_le_mul_of_nonneg_right hl.1 hn
  have hhigh := Int.mul_le_mul_of_nonneg_right hl.2 hn
  have hm : ((dots + n : Nat) : Int) * maxLevel = dots * maxLevel + maxLevel * n := by
    rw [Int.natCast_add, Int.add_mul, Int.mul_comm (n : Int)]
  constructor
  · rw [hm]
    rw [Int.neg_mul] at hlow
    omega
  · rw [hm]
    omega

theorem bounded_zero : Bounded 0 0 := by
  have hz : ((0 : Nat) : Int) * maxLevel = 0 := Int.zero_mul _
  constructor
  · exact Int.le_of_eq (congrArg Neg.neg hz)
  · exact Int.le_of_eq hz.symm

/-! ## The resampler -/

namespace Resampler

variable {r : Resampler}

/-- The rate is one that the host may ask for. -/
structure Supported (r : Resampler) : Prop where
  min : minSampleRate ≤ r.rate
  max : r.rate ≤ maxSampleRate

theorem Supported.pos (h : r.Supported) : 0 < r.rate := Nat.lt_of_lt_of_le (by decide) h.min

/-- A frame has had no more dots than its phase tells. -/
def Paced (r : Resampler) : Prop := r.dots * minSampleRate ≤ r.phase

structure InRange (r : Resampler) : Prop where
  supported : r.Supported
  phase : r.phase < clockRate
  left : Bounded r.dots r.left
  right : Bounded r.dots r.right
  dots : r.dots * minSampleRate ≤ r.phase + maxFrameDots * minSampleRate

theorem zero_mul_le (m n : Nat) : 0 * m ≤ n := by
  rw [Nat.zero_mul]
  exact Nat.zero_le n

theorem inRange_new (rate : Nat) :
    InRange { rate := min (max rate minSampleRate) maxSampleRate } where
  supported := ⟨Nat.le_min.mpr ⟨Nat.le_max_right _ _, by decide⟩, Nat.min_le_right _ _⟩
  phase := Nat.zero_lt_succ _
  left := bounded_zero
  right := bounded_zero
  dots := zero_mul_le _ _

/-- One frame ends with the dots until it. -/
theorem mul_rate_lt (hs : r.Supported) (hp : r.phase < clockRate) {dots : Nat}
    (hd : dots ≤ r.untilFrame) : r.phase + dots * r.rate < clockRate + r.rate := by
  have hr := hs.pos
  have hm := Nat.mul_le_mul_right r.rate hd
  have hq := Nat.div_mul_le_self (clockRate - r.phase + (r.rate - 1)) r.rate
  rw [untilFrame] at hm
  omega

theorem one_le_untilFrame (hs : r.Supported) (hp : r.phase < clockRate) : 1 ≤ r.untilFrame := by
  have hr := hs.pos
  rw [untilFrame, Nat.le_div_iff_mul_le hr]
  omega

/-- What is left of a frame that has been made. -/
theorem dots_le_phase (hr : minSampleRate ≤ r.rate) {k : Nat}
    (h : r.dots * minSampleRate ≤ r.phase + k) (dots : Nat) :
    (r.dots + dots) * minSampleRate ≤ r.phase + dots * r.rate + k := by
  have hm := Nat.mul_le_mul_left dots hr
  rw [Nat.add_mul]
  omega

theorem fst_emit (r : Resampler) : r.emit.1 = {
    rate := r.rate
    phase := r.phase - clockRate
    left := 0
    right := 0
    dots := 0
    leftFilter := (r.leftFilter.pass (mean r.left r.dots)).1
    rightFilter := (r.rightFilter.pass (mean r.right r.dots)).1 } := rfl

theorem InRange.advance (h : r.InRange) {dots : Nat} (hd : dots ≤ r.untilFrame) {levels : Int × Int}
    (hl : -maxLevel ≤ levels.1 ∧ levels.1 ≤ maxLevel)
    (hr : -maxLevel ≤ levels.2 ∧ levels.2 ≤ maxLevel) : (r.advance dots levels).1.InRange := by
  have hlt := mul_rate_lt h.supported h.phase hd
  have hmax := h.supported.max
  rw [Resampler.advance]
  simp only
  split
  · have hsmall : maxSampleRate < clockRate := by decide
    have hp : r.phase + dots * r.rate - clockRate < clockRate := by omega
    rw [fst_emit]
    exact ⟨⟨h.supported.min, h.supported.max⟩, hp, bounded_zero, bounded_zero, zero_mul_le _ _⟩
  · rename_i hf
    exact ⟨⟨h.supported.min, h.supported.max⟩, Nat.lt_of_not_le hf, h.left.add hl, h.right.add hr,
      dots_le_phase h.supported.min h.dots dots⟩

theorem Paced.advance (h : r.Paced) (hs : r.Supported) (dots : Nat) (levels : Int × Int) :
    (r.advance dots levels).1.Paced := by
  rw [Resampler.advance]
  simp only
  split
  · rw [fst_emit]
    exact zero_mul_le _ _
  · exact dots_le_phase (k := 0) hs.min h dots

@[simp] theorem rate_advance (r : Resampler) (dots : Nat) (levels : Int × Int) :
    (r.advance dots levels).1.rate = r.rate := by
  simp only [advance]
  split
  · rw [fst_emit]
  · rfl

end Resampler

/-! ## The unit -/

/-- The place of the sequencer is one that there is. -/
structure Sequenced (step countdown : Nat) : Prop where
  step : step < sequencerSteps
  countdownMin : 1 ≤ countdown
  countdownMax : countdown ≤ sequencerDots

structure InRange (s : Sound) : Prop where
  swept : s.swept.InRange
  square : s.square.InRange
  wave : s.wave.InRange
  noise : s.noise.InRange
  sequencer : Sequenced s.step s.countdown
  resampler : s.resampler.InRange

variable {s : Sound}

theorem Swept.inRange_silent {g : Gate} (h : g.length ≤ Square.maxLength) :
    Swept.InRange { square := { gate := g } } :=
  ⟨Square.inRange_silent h, Sweep.inRange_default⟩

theorem inRange_off (cgb : Bool) (rate : Nat) : (off cgb rate).InRange where
  swept := Swept.inRange_silent (Nat.zero_le _)
  square := Square.inRange_silent (Nat.zero_le _)
  wave := Wave.inRange_silent (Nat.zero_le _)
  noise := Noise.inRange_silent (Nat.zero_le _)
  sequencer := ⟨Nat.zero_lt_succ _, Nat.succ_le_succ (Nat.zero_le _), Nat.le_refl _⟩
  resampler := Resampler.inRange_new rate

/-! ## The sequencer -/

theorem InRange.clockLengths (h : s.InRange) : s.clockLengths.InRange :=
  ⟨h.swept.mapSquare fun _ hs => hs.clockLength, h.square.clockLength, h.wave.clockLength,
    h.noise.clockLength, h.sequencer, h.resampler⟩

theorem InRange.clockSweep (h : s.InRange) : s.clockSweep.InRange :=
  { h with swept := h.swept.clockSweep }

theorem InRange.clockEnvelopes (h : s.InRange) : s.clockEnvelopes.InRange :=
  ⟨h.swept.mapSquare fun _ hs => hs.clockEnvelope, h.square.clockEnvelope, h.wave,
    h.noise.clockEnvelope, h.sequencer, h.resampler⟩

/-- The sequencer may be clocked wherever its countdown stands. -/
theorem inRange_clockSequencer (hc : s.swept.InRange) (hq : s.square.InRange) (hw : s.wave.InRange)
    (hn : s.noise.InRange) (hr : s.resampler.InRange) : s.clockSequencer.InRange := by
  have h₀ : InRange { s with step := (s.step + 1) % sequencerSteps, countdown := sequencerDots } :=
    ⟨hc, hq, hw, hn, ⟨Nat.mod_lt _ (Nat.zero_lt_succ _), Nat.succ_le_succ (Nat.zero_le _), Nat.le_refl _⟩, hr⟩
  have ite {p : Prop} [Decidable p] {t u : Sound} (ht : t.InRange) (hu : u.InRange) :
      (if p then t else u).InRange := by split <;> assumption
  have h₁ := ite (p := s.step % 2 = 0) h₀.clockLengths h₀
  have h₂ := ite (p := s.step = 2 ∨ s.step = 6) h₁.clockSweep h₁
  exact ite (p := s.step = 7) h₂.clockEnvelopes h₂

theorem InRange.advanceChannels (h : s.InRange) (dots : Nat) : (s.advanceChannels dots).InRange := by
  have hc := h.swept.mapSquare fun _ hs => hs.advance dots
  rw [Sound.advanceChannels]
  simp only
  split
  · exact inRange_clockSequencer hc (h.square.advance dots) (h.wave.advance s.waveRam dots)
      (h.noise.advance dots) h.resampler
  · rename_i hpos
    refine ⟨hc, h.square.advance dots, h.wave.advance s.waveRam dots, h.noise.advance dots,
      ⟨h.sequencer.step, Nat.pos_of_ne_zero hpos, ?_⟩, h.resampler⟩
    exact Nat.le_trans (Nat.sub_le _ _) h.sequencer.countdownMax

section Clocked

variable {α : Type} {g : Sound → α}
  (hstep : ∀ (s : Sound) (step countdown : Nat), g { s with step, countdown } = g s)
  (hsweep : ∀ s : Sound, g s.clockSweep = g s) (henvelopes : ∀ s : Sound, g s.clockEnvelopes = g s)

include hstep hsweep henvelopes in
/-- What changes with the lengths alone changes at every other step of the sequencer. -/
theorem clockSequencer_of_lengths {f : α → α} (hlengths : ∀ s : Sound, g s.clockLengths = f (g s))
    (s : Sound) : g s.clockSequencer = if s.step % 2 = 0 then f (g s) else g s := by
  have ite {p : Prop} [Decidable p] {t u : Sound} (h : g t = g u) :
      g (if p then t else u) = g u := by
    split
    · exact h
    · rfl
  unfold clockSequencer
  dsimp only
  rw [ite (henvelopes _), ite (hsweep _), apply_ite g, hlengths, hstep]

include hstep hsweep henvelopes in
theorem clockSequencer_unchanged (hlengths : ∀ s : Sound, g s.clockLengths = g s) (s : Sound) :
    g s.clockSequencer = g s :=
  (clockSequencer_of_lengths (f := id) hstep hsweep henvelopes hlengths s).trans (ite_self _)

end Clocked

@[simp] theorem resampler_clockSequencer (s : Sound) :
    s.clockSequencer.resampler = s.resampler :=
  clockSequencer_unchanged (fun _ _ _ => rfl) (fun _ => rfl) (fun _ => rfl) (fun _ => rfl) s

@[simp] theorem cgb_clockSequencer (s : Sound) : s.clockSequencer.cgb = s.cgb :=
  clockSequencer_unchanged (fun _ _ _ => rfl) (fun _ => rfl) (fun _ => rfl) (fun _ => rfl) s

@[simp] theorem resampler_advanceChannels (dots : Nat) (s : Sound) :
    (s.advanceChannels dots).resampler = s.resampler := by
  rw [advanceChannels]
  simp only
  split
  · exact resampler_clockSequencer _
  · rfl

@[simp] theorem cgb_advanceChannels (dots : Nat) (s : Sound) :
    (s.advanceChannels dots).cgb = s.cgb := by
  rw [advanceChannels]
  simp only
  split
  · exact cgb_clockSequencer _
  · rfl

/-! ## The passing of dots -/

theorem Square.InRange.output_lt {q : Square} (h : q.InRange) : q.output < 16 := by
  rw [Square.output]
  split
  · exact h.envelope.volume
  · decide

theorem Wave.InRange.output_lt {w : Wave} (h : w.InRange) : w.output < 16 := by
  rw [Wave.output]
  split
  · decide
  · rw [Nat.shiftRight_eq_div_pow]
    exact Nat.lt_of_le_of_lt (Nat.div_le_self _ _) h.buffer

theorem Noise.InRange.output_lt {n : Noise} (h : n.InRange) : n.output < 16 := by
  rw [Noise.output]
  split
  · exact h.envelope.volume
  · decide

theorem InRange.levels_bounds (h : s.InRange) : ∀ l ∈ s.levels, -15 ≤ l ∧ l ≤ 15 := by
  intro l hl
  simp only [levels, List.mem_cons, List.not_mem_nil, or_false] at hl
  rcases hl with rfl | rfl | rfl | rfl
  · exact level_bounds _ h.swept.square.output_lt
  · exact level_bounds _ h.square.output_lt
  · exact level_bounds _ h.wave.output_lt
  · exact level_bounds _ h.noise.output_lt

theorem InRange.mix_bounds (h : s.InRange) : (-maxLevel ≤ s.mix.1 ∧ s.mix.1 ≤ maxLevel) ∧
    (-maxLevel ≤ s.mix.2 ∧ s.mix.2 ≤ maxLevel) := by
  have hl := h.levels_bounds
  rw [mix]
  split
  · exact ⟨side_bounds hl rfl _ _, side_bounds hl rfl _ _⟩
  · exact ⟨by decide, by decide⟩

/-- No event is later than the next frame. -/
theorem le_untilFrame (hs : s.resampler.Supported) (hp : s.resampler.phase < clockRate) {dots : Nat}
    (hd : dots ≤ s.untilEvent) : dots ≤ s.resampler.untilFrame := by
  have hf := Resampler.one_le_untilFrame hs hp
  rw [untilEvent] at hd
  split at hd <;> omega

/-- With power, no event is later than the next step of the sequencer. -/
theorem le_countdown (hc : 1 ≤ s.countdown) (hp : s.powered = true) {dots : Nat}
    (hd : dots ≤ s.untilEvent) : dots ≤ s.countdown := by
  rw [untilEvent, if_pos hp] at hd
  omega

theorem InRange.advanceWithin (h : s.InRange) {dots : Nat} (hd : dots ≤ s.untilEvent) :
    (s.advanceWithin dots).InRange := by
  have hu := le_untilFrame h.resampler.supported h.resampler.phase hd
  have hs : (if s.powered then s.advanceChannels dots else s).InRange := by
    split
    · exact h.advanceChannels dots
    · exact h
  have hr : (if s.powered then s.advanceChannels dots else s).resampler = s.resampler := by
    split
    · exact resampler_advanceChannels dots s
    · rfl
  have hl := h.mix_bounds
  have hn := (hr ▸ h.resampler.advance hu hl.1 hl.2 :
    ((if s.powered then s.advanceChannels dots else s).resampler.advance dots s.mix).1.InRange)
  rw [Sound.advanceWithin]
  simp only
  split <;> exact { hs with resampler := hn }

@[simp] theorem cgb_advanceWithin (dots : Nat) (s : Sound) :
    (s.advanceWithin dots).cgb = s.cgb := by
  have hs : (if s.powered then s.advanceChannels dots else s).cgb = s.cgb := by
    split
    · exact cgb_advanceChannels dots s
    · rfl
  rw [advanceWithin]
  simp only
  split <;> exact hs

theorem resampler_advanceWithin (dots : Nat) (s : Sound) :
    (s.advanceWithin dots).resampler = (s.resampler.advance dots s.mix).1 := by
  have hr : (if s.powered then s.advanceChannels dots else s).resampler = s.resampler := by
    split
    · exact resampler_advanceChannels dots s
    · rfl
  rw [advanceWithin]
  simp only [hr]
  split <;> rfl

theorem InRange.advance (h : s.InRange) (dots : Nat) : (s.advance dots).InRange := by
  induction dots, s using Sound.advance.induct with
  | case1 s =>
    rw [Sound.advance, if_pos rfl]
    exact h
  | case2 dots s hd run ih =>
    rw [Sound.advance, if_neg hd]
    exact ih (h.advanceWithin (Nat.min_le_right _ _))

/-- What does not change about a sound unit: the console it is in and the rate. -/
def config (s : Sound) : Bool × Nat := (s.cgb, s.resampler.rate)

@[simp] theorem config_advance (dots : Nat) (s : Sound) : (s.advance dots).config = s.config := by
  induction dots, s using Sound.advance.induct with
  | case1 s => rw [Sound.advance, if_pos rfl]
  | case2 dots s hd run ih =>
    rw [Sound.advance, if_neg hd]
    refine ih.trans ?_
    simp only [config, cgb_advanceWithin, resampler_advanceWithin, Resampler.rate_advance]

theorem InRange.paced_advance (h : s.InRange) (hp : s.resampler.Paced) (dots : Nat) :
    (s.advance dots).resampler.Paced := by
  induction dots, s using Sound.advance.induct with
  | case1 s =>
    rw [Sound.advance, if_pos rfl]
    exact hp
  | case2 dots s hd run ih =>
    rw [Sound.advance, if_neg hd]
    refine ih (h.advanceWithin (Nat.min_le_right _ _)) ?_
    rw [resampler_advanceWithin]
    exact hp.advance h.resampler.supported run s.mix

/-! ## Writes -/

theorem InRange.powerOn (h : s.InRange) : s.powerOn.InRange where
  swept := ⟨{ h.swept.square with position := Nat.zero_lt_succ _ }, h.swept.sweep⟩
  square := { h.square with position := Nat.zero_lt_succ _ }
  wave := { h.wave with buffer := Nat.zero_lt_succ _ }
  noise := h.noise
  sequencer := ⟨Nat.zero_lt_succ _, Nat.succ_le_succ (Nat.zero_le _), Nat.le_refl _⟩
  resampler := h.resampler

theorem length_unpoweredGate_le {g : Gate} {full : Nat} (h : g.length ≤ full) :
    (s.unpoweredGate g).length ≤ full := by
  rw [unpoweredGate]
  split
  · exact Nat.zero_le _
  · exact h

theorem InRange.powerOff (h : s.InRange) : s.powerOff.InRange where
  swept := Swept.inRange_silent (length_unpoweredGate_le h.swept.square.length)
  square := Square.inRange_silent (length_unpoweredGate_le h.square.length)
  wave := Wave.inRange_silent (length_unpoweredGate_le h.wave.length)
  noise := Noise.inRange_silent (length_unpoweredGate_le h.noise.length)
  sequencer := h.sequencer
  resampler := h.resampler

theorem InRange.writeUnpowered (h : s.InRange) (address : UInt16) (value : UInt8) :
    (s.writeUnpowered address value).InRange := by
  rw [Sound.writeUnpowered]
  split
  · exact { h with swept := h.swept.mapSquare fun _ hs => hs.writeLength value }
  · exact { h with square := h.square.writeLength value }
  · exact { h with wave := h.wave.writeLength value }
  · exact { h with noise := h.noise.writeLength value }
  · exact h

theorem InRange.writePowered (h : s.InRange) (address : UInt16) (value : UInt8) :
    (s.writePowered address value).InRange := by
  rw [Sound.writePowered]
  split
  · exact { h with swept := h.swept.writeSweep value }
  · exact { h with swept := h.swept.mapSquare fun _ hs => hs.writeDuty value }
  · exact { h with swept := h.swept.mapSquare fun _ hs => hs.writeEnvelope value }
  · exact { h with swept := h.swept.mapSquare fun _ hs => hs.writeFrequency value }
  · exact { h with swept := h.swept.writeControl s.late value }
  · exact { h with square := h.square.writeDuty value }
  · exact { h with square := h.square.writeEnvelope value }
  · exact { h with square := h.square.writeFrequency value }
  · exact { h with square := h.square.writeControl s.late value }
  · exact { h with wave := h.wave.writeDac value }
  · exact { h with wave := h.wave.writeLength value }
  · exact { h with wave := h.wave.writeVolume value }
  · exact { h with wave := h.wave.writeFrequency value }
  · exact { h with wave := h.wave.writeControl s.late value }
  · exact { h with noise := h.noise.writeLength value }
  · exact { h with noise := h.noise.writeEnvelope value }
  · exact { h with noise := h.noise.writeClock value }
  · exact { h with noise := h.noise.writeControl s.late value }
  · exact { h with }
  · exact { h with }
  · exact h

theorem InRange.write (h : s.InRange) (address : UInt16) (value : UInt8) :
    (s.write address value).InRange := by
  rw [Sound.write]
  split
  · exact { h with }
  split
  · rw [writePower]
    split
    · exact h.powerOff
    · exact h.powerOn
    · exact h
  split
  · exact h
  split
  · refine InRange.writePowered ?_ address value
    exact { h with }
  · exact h.writeUnpowered address value

@[simp] theorem resampler_write (s : Sound) (address : UInt16) (value : UInt8) :
    (s.write address value).resampler = s.resampler := by
  rw [Sound.write]
  split
  · rfl
  split
  · rw [writePower]
    split <;> rfl
  split
  · rfl
  split
  · rw [writePowered]
    split <;> rfl
  · rw [writeUnpowered]
    split <;> rfl

@[simp] theorem cgb_write (s : Sound) (address : UInt16) (value : UInt8) :
    (s.write address value).cgb = s.cgb := by
  rw [Sound.write]
  split
  · rfl
  split
  · rw [writePower]
    split <;> rfl
  split
  · rfl
  split
  · rw [writePowered]
    split <;> rfl
  · rw [writeUnpowered]
    split <;> rfl

/-- What every write preserves, the writes of the boot ROM preserve. -/
theorem foldl_write {P : Sound → Prop} (hw : ∀ s address value, P s → P (s.write address value))
    (writes : List (UInt16 × UInt8)) (h : P s) :
    P (writes.foldl (fun s w => s.write w.1 w.2) s) := by
  induction writes generalizing s with
  | nil => exact h
  | cons w rest ih => exact ih (hw s w.1 w.2 h)

theorem InRange.boot (h : s.InRange) : s.boot.InRange := by
  have hs := foldl_write (P := Sound.InRange) (fun _ address value h => h.write address value)
    bootWrites h
  have hc := hs.swept.square
  have hq : (s.boot.swept.square).InRange := { hc with
    length := Nat.zero_le _
    envelope := { hc.envelope with volume := Nat.zero_lt_succ _ } }
  exact { hs with swept := ⟨hq, hs.swept.sweep⟩ }

theorem resampler_boot (s : Sound) : s.boot.resampler = s.resampler :=
  foldl_write (P := fun t => t.resampler = s.resampler)
    (fun t address value h => (resampler_write t address value).trans h) bootWrites rfl

theorem cgb_boot (s : Sound) : s.boot.cgb = s.cgb :=
  foldl_write (P := fun t => t.cgb = s.cgb)
    (fun t address value h => (cgb_write t address value).trans h) bootWrites rfl

end DotMatrix.Sound
