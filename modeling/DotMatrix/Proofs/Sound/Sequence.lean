import DotMatrix.Proofs.Sound.ChannelWords
import DotMatrix.Proofs.Sound.Sounding

/-!
# The sequencer and the channels between its steps

Between two steps of the sequencer the channels only count down, and that in any portions. So
a number of dots is a number of steps, each at the end of its countdown, and a rest, wherever
the resampler may cut them.
-/
namespace DotMatrix.Sound

/-! ## Countdowns in portions -/

namespace Countdown

variable {period : Nat}

/-- Dots beyond the timer, as whole periods and a rest with the dots that follow. -/
theorem beyond_add {timer m : Nat} (h : timer ≤ m) (period n : Nat) :
    m + n - timer = period * ((m - timer) / period) + ((m - timer) % period + n) := by
  have hx := Nat.div_add_mod (m - timer) period
  omega

theorem expiries_add (hp : 0 < period) (timer m n : Nat) :
    expiries period timer (m + n) =
      expiries period timer m + expiries period (left period timer m) n := by
  have hr := Nat.mod_lt (m - timer) hp
  rw [left]
  by_cases h : m < timer
  · rw [if_pos h, expiries, expiries, if_pos h, expiries]
    split
    · rw [if_pos (by omega)]
    · rw [if_neg (by omega), Nat.zero_add]
      congr 2
      omega
  · rw [if_neg h, expiries, expiries, if_neg h, if_neg (by omega), expiries,
      beyond_add (Nat.le_of_not_lt h) period, Nat.mul_add_div hp, ← Nat.add_assoc]
    congr 1
    split
    · exact Nat.div_eq_of_lt (by omega)
    · rw [Nat.div_eq_sub_div hp (by omega), Nat.add_comm]
      congr 2
      omega

theorem left_add (hp : 0 < period) (timer m n : Nat) :
    left period timer (m + n) = left period (left period timer m) n := by
  have hr := Nat.mod_lt (m - timer) hp
  rw [left, left.eq_def period timer m]
  by_cases h : m < timer
  · rw [if_pos h, left]
    split
    · rw [if_pos (by omega), Nat.sub_add_eq]
    · rw [if_neg (by omega)]
      congr 2
      omega
  · rw [if_neg h, if_neg (by omega), left, beyond_add (Nat.le_of_not_lt h) period,
      Nat.mul_add_mod]
    split
    · rw [Nat.mod_eq_of_lt (by omega)]
      omega
    · rw [Nat.mod_eq_sub_mod (by omega)]
      congr 2
      omega

end Countdown

/-! ## Channels in portions -/

theorem Square.advance_add {q : Square} (h : q.frequency ≤ maxFrequency) (m n : Nat) :
    q.advance (m + n) = (q.advance m).advance n := by
  have hp : 0 < q.period := period_pos (by decide) (Nat.lt_succ_of_le h)
  by_cases hon : q.gate.on = true
  · have hm : q.advance m = { q with
        position := (q.position + Countdown.expiries q.period q.timer m) % 8
        timer := Countdown.left q.period q.timer m } := if_pos hon
    rw [hm, advance, advance, if_pos hon, if_pos hon, Countdown.expiries_add hp,
      Countdown.left_add hp]
    simp only [Nat.mod_add_mod, Nat.add_assoc]
    rfl
  · have hm (n : Nat) : q.advance n = q := if_neg hon
    rw [hm, hm, hm]

/-- A number of samples on; of those that are passed only the last is fetched. -/
def Wave.skip (ram : Memory 16) (count : Nat) (w : Wave) : Wave :=
  { w with
    position := (w.position + count) % sampleCount
    buffer := if count = 0 then w.buffer else sampleAt ram ((w.position + count) % sampleCount) }

theorem Wave.skip_add (ram : Memory 16) (m n : Nat) (w : Wave) :
    w.skip ram (m + n) = (w.skip ram m).skip ram n := by
  have hplace : ((w.position + m) % sampleCount + n) % sampleCount =
      (w.position + (m + n)) % sampleCount := by
    rw [Nat.mod_add_mod, Nat.add_assoc]
  simp only [skip, hplace, mk.injEq, true_and, and_true]
  by_cases hn : n = 0
  · rw [hn, if_pos rfl, Nat.add_zero]
  · rw [if_neg hn, if_neg (by omega)]

theorem Wave.advance_add {w : Wave} (h : w.frequency ≤ maxFrequency) (ram : Memory 16) (m n : Nat) :
    w.advance ram (m + n) = (w.advance ram m).advance ram n := by
  have hp : 0 < w.period := period_pos (by decide) (Nat.lt_succ_of_le h)
  by_cases hon : w.gate.on = true
  · have hm (dots : Nat) : w.advance ram dots =
        { w.skip ram (Countdown.expiries w.period w.timer dots) with
          timer := Countdown.left w.period w.timer dots } := if_pos hon
    rw [hm (m + n), hm m, Countdown.expiries_add hp, Countdown.left_add hp, skip_add]
    exact (if_pos hon).symm
  · have hm (n : Nat) : w.advance ram n = w := if_neg hon
    rw [hm, hm, hm]

theorem Noise.advance_add (c : Noise) (m n : Nat) :
    c.advance (m + n) = (c.advance m).advance n := by
  by_cases hon : c.gate.on = true
  · have hm : c.advance m = { c with
        register := Nat.repeat (shift c.short) (Countdown.expiries c.period c.timer m) c.register
        timer := Countdown.left c.period c.timer m } := if_pos hon
    rw [hm, advance, advance, if_pos hon, if_pos hon, Countdown.expiries_add c.period_pos,
      Countdown.left_add c.period_pos, repeat_add]
    rfl
  · have hm (n : Nat) : c.advance n = c := if_neg hon
    rw [hm, hm, hm]

/-! ## Between two steps -/

variable {s : Sound}

/-- The dots until the next step of the sequencer, or some of them. -/
def flow (dots : Nat) (s : Sound) : Sound :=
  if dots = 0 then s
  else { s with
    swept := s.swept.mapSquare (Square.advance dots)
    square := s.square.advance dots
    wave := s.wave.advance s.waveRam dots
    noise := s.noise.advance dots
    countdown := s.countdown - dots }

/-- The dots until the next step of the sequencer, and the step. -/
def beat (s : Sound) : Sound := (s.flow s.countdown).clockSequencer

/-- The frequencies are ones that there are. -/
structure Tuned (s : Sound) : Prop where
  swept : s.swept.square.frequency ≤ maxFrequency
  square : s.square.frequency ≤ maxFrequency
  wave : s.wave.frequency ≤ maxFrequency

theorem flow_of_ne_zero {dots : Nat} (h : dots ≠ 0) (s : Sound) : s.flow dots = { s with
    swept := s.swept.mapSquare (Square.advance dots)
    square := s.square.advance dots
    wave := s.wave.advance s.waveRam dots
    noise := s.noise.advance dots
    countdown := s.countdown - dots } := if_neg h

theorem countdown_flow (dots : Nat) (s : Sound) : (s.flow dots).countdown = s.countdown - dots := by
  rw [flow]
  split
  · rename_i h
    rw [h, Nat.sub_zero]
  · rfl

theorem flow_add (h : s.Tuned) (m n : Nat) : s.flow (m + n) = (s.flow m).flow n := by
  by_cases hm : m = 0
  · rw [hm, Nat.zero_add]
    rfl
  by_cases hn : n = 0
  · rw [hn, Nat.add_zero]
    rfl
  have hmn : m + n ≠ 0 := by omega
  rw [flow_of_ne_zero hmn, flow_of_ne_zero hn, flow_of_ne_zero hm]
  simp only [Swept.mapSquare, Square.advance_add h.swept, Square.advance_add h.square,
    Wave.advance_add h.wave, Noise.advance_add, Nat.sub_add_eq]

/-- The channels reach the next step of the sequencer, or they do not. -/
theorem advanceChannels_eq {dots : Nat} (h : dots ≠ 0) (s : Sound) :
    s.advanceChannels dots =
      if (s.flow dots).countdown = 0 then (s.flow dots).clockSequencer else s.flow dots := by
  rw [flow_of_ne_zero h]
  rfl

theorem Square.frequency_advance (dots : Nat) (q : Square) :
    (q.advance dots).frequency = q.frequency := by
  rw [Square.advance]
  split <;> rfl

theorem Wave.frequency_advance (ram : Memory 16) (dots : Nat) (w : Wave) :
    (w.advance ram dots).frequency = w.frequency := by
  rw [Wave.advance]
  split <;> rfl

theorem Tuned.flow (h : s.Tuned) (dots : Nat) : (s.flow dots).Tuned := by
  by_cases hd : dots = 0
  · rw [Sound.flow, if_pos hd]
    exact h
  · rw [flow_of_ne_zero hd]
    exact ⟨(Square.frequency_advance dots s.swept.square).symm ▸ h.swept,
      (Square.frequency_advance dots s.square).symm ▸ h.square,
      (Wave.frequency_advance s.waveRam dots s.wave).symm ▸ h.wave⟩

/-- A sweep stops short of the frequencies that there are not. -/
theorem Swept.frequency_clockSweep_le {c : Swept} (h : c.square.frequency ≤ maxFrequency) :
    c.clockSweep.square.frequency ≤ maxFrequency := by
  have hstep {c : Swept} (h : c.square.frequency ≤ maxFrequency) :
      c.step.square.frequency ≤ maxFrequency := by
    rw [Swept.step]
    dsimp only
    split
    · rename_i hf
      exact hf.1
    · exact h
  rw [Swept.clockSweep]
  split
  · exact h
  · dsimp only
    split
    · exact hstep h
    · exact h

theorem Tuned.clockSequencer (h : s.Tuned) : s.clockSequencer.Tuned := by
  have ite {p : Prop} [Decidable p] {t u : Sound} (ht : t.Tuned) (hu : u.Tuned) :
      (if p then t else u).Tuned := by split <;> assumption
  have h₀ : Tuned { s with step := (s.step + 1) % sequencerSteps, countdown := sequencerDots } :=
    { h with }
  have h₁ := ite (p := s.step % 2 = 0) (t := Sound.clockLengths _) { h₀ with } h₀
  have h₂ := ite (p := s.step = 2 ∨ s.step = 6) (t := Sound.clockSweep _)
    { h₁ with swept := Swept.frequency_clockSweep_le h₁.swept } h₁
  exact ite (p := s.step = 7) (t := Sound.clockEnvelopes _) { h₂ with } h₂

theorem Tuned.beat (h : s.Tuned) : s.beat.Tuned := (h.flow s.countdown).clockSequencer

@[simp] theorem countdown_clockSequencer (s : Sound) :
    s.clockSequencer.countdown = sequencerDots := by
  unfold clockSequencer
  simp only
  split <;> split <;> split <;> rfl

@[simp] theorem countdown_beat (s : Sound) : s.beat.countdown = sequencerDots :=
  countdown_clockSequencer _

/-! ## From step to step -/

def beats (dots : Nat) (s : Sound) : Nat :=
  if dots < s.countdown then 0 else 1 + (dots - s.countdown) / sequencerDots

def sinceBeat (dots : Nat) (s : Sound) : Nat :=
  if dots < s.countdown then dots else (dots - s.countdown) % sequencerDots

/-- A number of dots, as steps of the sequencer and a rest. -/
def play (dots : Nat) (s : Sound) : Sound :=
  (Nat.repeat beat (s.beats dots) s).flow (s.sinceBeat dots)

theorem play_of_lt {dots : Nat} (h : dots < s.countdown) : s.play dots = s.flow dots := by
  rw [play, beats, sinceBeat, if_pos h, if_pos h, Nat.repeat]

/-- Once there is a step, what is left goes on behind it. -/
theorem play_of_le {dots : Nat} (h : s.countdown ≤ dots) :
    s.play dots = s.beat.play (dots - s.countdown) := by
  have hbeats : s.beats dots = s.beat.beats (dots - s.countdown) + 1 := by
    rw [beats, if_neg (Nat.not_lt_of_le h), beats, countdown_beat, Nat.add_comm 1]
    congr 1
    split
    · rename_i hlt
      exact Nat.div_eq_of_lt hlt
    · rename_i hge
      rw [Nat.div_eq_sub_div (by decide) (Nat.le_of_not_lt hge), Nat.add_comm]
  have hsince : s.sinceBeat dots = s.beat.sinceBeat (dots - s.countdown) := by
    rw [sinceBeat, if_neg (Nat.not_lt_of_le h), sinceBeat, countdown_beat]
    split
    · rename_i hlt
      exact Nat.mod_eq_of_lt hlt
    · rename_i hge
      exact Nat.mod_eq_sub_mod (Nat.le_of_not_lt hge)
  rw [play, hbeats, hsince, repeat_succ_inner, play]

/-- The first dots of a wait bring its end closer and change nothing about it. -/
theorem beat_flow (h : s.Tuned) {dots : Nat} (hd : dots ≤ s.countdown) :
    (s.flow dots).beat = s.beat := by
  rw [beat, countdown_flow, ← flow_add h, Nat.add_sub_cancel' hd, beat]

theorem play_add (h : s.Tuned) (hc : 1 ≤ s.countdown) (m n : Nat) :
    s.play (m + n) = (s.play m).play n := by
  induction m using Nat.strongRecOn generalizing s with
  | ind m ih =>
    by_cases hm : m < s.countdown
    · rw [play_of_lt hm]
      by_cases hn : m + n < s.countdown
      · rw [play_of_lt hn, flow_add h, play_of_lt]
        rw [countdown_flow]
        omega
      · have hrest : (s.flow m).countdown ≤ n := by
          rw [countdown_flow]
          omega
        have hdots : n - (s.flow m).countdown = m + n - s.countdown := by
          rw [countdown_flow]
          omega
        rw [play_of_le (Nat.le_of_not_lt hn), play_of_le hrest, beat_flow h (Nat.le_of_lt hm),
          hdots]
    · have hle := Nat.le_of_not_lt hm
      have hpos : 1 ≤ s.beat.countdown := by
        rw [countdown_beat]
        decide
      have hsum : m + n - s.countdown = m - s.countdown + n := by omega
      rw [play_of_le (by omega), play_of_le hle, hsum, ih _ (by omega) h.beat hpos]

/-! ## Lengths -/

/-- A counter that runs down, and the channel with it. -/
theorem Gate.repeat_clock {g : Gate} (henabled : g.lengthEnabled = true) (hlength : 1 ≤ g.length)
    (n : Nat) : Nat.repeat clock n g =
      { g with length := g.length - n, on := g.on && decide (n < g.length) } := by
  induction n with
  | zero => simp only [Nat.repeat, Nat.sub_zero, Nat.lt_of_succ_le hlength, decide_true, Bool.and_true]
  | succ n ih =>
    rw [Nat.repeat, ih, clock]
    by_cases hn : n < g.length
    · have hpos : 0 < g.length - n := Nat.sub_pos_of_lt hn
      have hlast : (g.length - n != 1) = decide (n + 1 < g.length) := by
        rw [Bool.eq_iff_iff, bne_iff_ne, decide_eq_true_iff]
        omega
      rw [if_pos ⟨henabled, hpos⟩]
      simp only [hn, decide_true, Bool.and_true, hlast, Nat.sub_sub]
    · have hdone : g.length - n = 0 := by omega
      have hover : ¬ n + 1 < g.length := by omega
      rw [if_neg (fun h => by simp only [hdone] at h; omega)]
      simp only [hn, hover, hdone, Nat.sub_eq_zero_of_le (Nat.le_of_not_lt hover)]

/-- The steps among the next `count` that clock the lengths: those with an even number. -/
def lengthSteps (step count : Nat) : Nat :=
  (List.range count).countP fun i => (step + i) % sequencerSteps % 2 = 0

theorem lengthSteps_succ (step count : Nat) : lengthSteps step (count + 1) =
    lengthSteps step count + if (step + count) % sequencerSteps % 2 = 0 then 1 else 0 := by
  rw [lengthSteps, countP_range_succ, ← lengthSteps]
  simp only [decide_eq_true_eq]

/-- A channel on which the sequencer does nothing but clock its length. -/
structure Metered (gate : Sound → Gate) : Prop where
  flow (dots : Nat) (s : Sound) : gate (s.flow dots) = gate s
  clockSequencer (s : Sound) :
    gate s.clockSequencer = if s.step % 2 = 0 then (gate s).clock else gate s

theorem metered_square : Metered (·.square.gate) where
  flow dots s := by
    rw [flow]
    split
    · rfl
    · exact Square.gate_advance dots s.square
  clockSequencer := clockSequencer_of_lengths (g := (·.square.gate)) (f := Gate.clock)
    (fun _ _ _ => rfl) (fun _ => rfl) (fun _ => rfl) fun _ => rfl

theorem metered_wave : Metered (·.wave.gate) where
  flow dots s := by
    rw [flow]
    split
    · rfl
    · exact Wave.gate_advance s.waveRam dots s.wave
  clockSequencer := clockSequencer_of_lengths (g := (·.wave.gate)) (f := Gate.clock)
    (fun _ _ _ => rfl) (fun _ => rfl) (fun _ => rfl) fun _ => rfl

theorem metered_noise : Metered (·.noise.gate) where
  flow dots s := by
    rw [flow]
    split
    · rfl
    · exact Noise.gate_advance dots s.noise
  clockSequencer := clockSequencer_of_lengths (g := (·.noise.gate)) (f := Gate.clock)
    (fun _ _ _ => rfl) (fun _ => rfl) (fun _ => rfl) fun _ => rfl

theorem step_flow (dots : Nat) (s : Sound) : (s.flow dots).step = s.step := by
  rw [flow]
  split <;> rfl

theorem step_beat (s : Sound) : s.beat.step = (s.step + 1) % sequencerSteps := by
  rw [← step_flow s.countdown s, beat]
  unfold clockSequencer
  simp only
  split <;> split <;> split <;> rfl

theorem step_repeat_beat (count : Nat) (s : Sound) :
    (Nat.repeat beat count s).step % sequencerSteps = (s.step + count) % sequencerSteps := by
  induction count with
  | zero => rfl
  | succ n ih =>
    rw [Nat.repeat, step_beat, Nat.mod_mod, Nat.add_mod, ih, Nat.mod_add_mod, Nat.add_mod_mod,
      Nat.add_assoc]

theorem Metered.repeat_beat {gate : Sound → Gate} (h : Metered gate) (count : Nat) (s : Sound) :
    gate (Nat.repeat beat count s) = Nat.repeat Gate.clock (lengthSteps s.step count) (gate s) := by
  induction count with
  | zero => rfl
  | succ n ih =>
    have heven : (Nat.repeat beat n s).step % 2 = (s.step + n) % sequencerSteps % 2 := by
      rw [← step_repeat_beat, Nat.mod_mod_of_dvd _ (by decide)]
    rw [Nat.repeat, beat, h.clockSequencer, step_flow, h.flow, heven, ih,
      lengthSteps_succ]
    split <;> rfl

/-- A channel goes off with the clock that takes its length to zero. -/
theorem Metered.off_iff {gate : Sound → Gate} (h : Metered gate) (hon : (gate s).on = true)
    (henabled : (gate s).lengthEnabled = true) (hlength : 1 ≤ (gate s).length)
    (count rest : Nat) : (gate ((Nat.repeat beat count s).flow rest)).on = false ↔
      (gate s).length ≤ lengthSteps s.step count := by
  rw [h.flow, h.repeat_beat, Gate.repeat_clock henabled hlength]
  simp only [hon, Bool.true_and, decide_eq_false_iff_not, Nat.not_lt]

end DotMatrix.Sound
