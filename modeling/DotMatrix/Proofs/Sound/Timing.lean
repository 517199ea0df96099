import DotMatrix.Proofs.Sound.Frames
import DotMatrix.Proofs.Sound.Sequence

/-!
# When the unit does what

Three clocks run in the unit: the resampler, the sequencer and the timers of the channels. A
run is cut at whichever comes first, and yet none of them notices the cuts that the others
make: the frames, the steps of the sequencer and the channels are what the number of dots
makes them, in one portion or in many. Only the levels of the frames depend on the portions.
-/
namespace DotMatrix.Sound

variable {s : Sound}

/-! ## The resampler -/

namespace Resampler

variable {r : Resampler}

def gathered (dots : Nat) (r : Resampler) : Nat :=
  if r.phase + dots * r.rate < clockRate then r.dots + dots
  else (r.phase + dots * r.rate) % clockRate / r.rate

/-- It does not matter for them where a run before the end of a frame stops. -/
theorem gathered_advance (hs : r.Supported) (hp : r.phase < clockRate) {run dots : Nat}
    (hu : run ≤ r.untilFrame) (hd : run ≤ dots) (levels : Int × Int) :
    (r.advance run levels).1.gathered (dots - run) = r.gathered dots := by
  have hlt := mul_rate_lt hs hp hu
  have hsum : dots * r.rate = run * r.rate + (dots - run) * r.rate := by
    rw [← Nat.add_mul, Nat.add_sub_cancel' hd]
  rw [advance]
  dsimp only
  split
  · rename_i hf
    have hphase : r.phase + run * r.rate - clockRate + (dots - run) * r.rate =
        r.phase + dots * r.rate - clockRate := by omega
    have hge : ¬ r.phase + dots * r.rate < clockRate := by omega
    have hmod : (r.phase + dots * r.rate) % clockRate =
        (r.phase + dots * r.rate - clockRate) % clockRate :=
      Nat.mod_eq_sub_mod (Nat.le_of_not_lt hge)
    rw [fst_emit, gathered, gathered, if_neg hge, hmod]
    dsimp only
    rw [hphase]
    split
    · rename_i hsmall
      -- The frame left less than the phase of one dot.
      rw [Nat.mod_eq_of_lt hsmall, ← hphase, Nat.add_mul_div_right _ _ hs.pos,
        Nat.div_eq_of_lt (by omega)]
    · rfl
  · have hphase : r.phase + run * r.rate + (dots - run) * r.rate = r.phase + dots * r.rate := by
      omega
    have hdots : r.dots + run + (dots - run) = r.dots + dots := by omega
    rw [gathered, gathered]
    dsimp only
    rw [hphase, hdots]

/-- Nor does it matter where a portion stops that goes on from the phase it has reached. -/
theorem gathered_add {r' : Resampler} (hr : 0 < r.rate) {m : Nat} (hrate : r'.rate = r.rate)
    (hp : r'.phase = (r.phase + m * r.rate) % clockRate) (hd : r'.dots = r.gathered m) (n : Nat) :
    r'.gathered n = r.gathered (m + n) := by
  have hsum : r.phase + (m + n) * r.rate = r.phase + m * r.rate + n * r.rate := by
    rw [Nat.add_mul, Nat.add_assoc]
  rw [gathered, gathered, hrate, hp, hd, gathered, hsum]
  generalize r.phase + m * r.rate = parts
  by_cases hparts : parts < clockRate
  · rw [if_pos hparts, Nat.mod_eq_of_lt hparts, Nat.add_assoc]
  · have hge : ¬ parts + n * r.rate < clockRate := by omega
    rw [if_neg hparts, if_neg hge, Nat.mod_add_mod]
    split
    · rename_i hsmall
      rw [← Nat.mod_add_mod, Nat.mod_eq_of_lt hsmall, Nat.add_mul_div_right _ _ hr]
    · rfl

theorem Supported.advance (h : r.Supported) (dots : Nat) (levels : Int × Int) :
    (r.advance dots levels).1.Supported := by
  constructor
  · rw [rate_advance]
    exact h.min
  · rw [rate_advance]
    exact h.max

theorem phase_advance_lt (hs : r.Supported) (hp : r.phase < clockRate) {dots : Nat}
    (hu : dots ≤ r.untilFrame) (levels : Int × Int) :
    (r.advance dots levels).1.phase < clockRate := by
  have hlt := mul_rate_lt hs hp hu
  have hmax := hs.max
  have hsmall : maxSampleRate < clockRate := by decide
  rw [advance]
  dsimp only
  split
  · rw [fst_emit]
    dsimp only
    omega
  · rename_i hf
    exact Nat.lt_of_not_le hf

end Resampler

/-! ## The unit without its resampler -/

/-- All but the resampler and its frames. -/
def bare (s : Sound) : Sound := { s with resampler := {}, frames := #[] }

theorem bare_flow (dots : Nat) (s : Sound) : (s.flow dots).bare = s.bare.flow dots := by
  by_cases h : dots = 0
  · rw [flow, if_pos h, flow, if_pos h]
  · rw [flow_of_ne_zero h, flow_of_ne_zero h]
    rfl

theorem bare_clockSequencer (s : Sound) : s.clockSequencer.bare = s.bare.clockSequencer := by
  have hstep : s.bare.step = s.step := rfl
  unfold clockSequencer
  simp only [hstep]
  split <;> split <;> split <;> rfl

theorem bare_beat (s : Sound) : s.beat.bare = s.bare.beat := by
  rw [beat, bare_clockSequencer, bare_flow, beat]
  rfl

theorem bare_play (dots : Nat) (s : Sound) : (s.play dots).bare = s.bare.play dots := by
  rw [play, bare_flow, repeat_map bare_beat, play]
  rfl

/-- A run up to the next step of the sequencer, with the step if it gets there. -/
theorem advanceChannels_eq_play {dots : Nat} (h : dots ≠ 0) (hd : dots ≤ s.countdown) :
    s.advanceChannels dots = s.play dots := by
  rw [advanceChannels_eq h, countdown_flow]
  by_cases hlt : dots < s.countdown
  · rw [if_neg (by omega), play_of_lt hlt]
  · have heq : dots = s.countdown := by omega
    have hrest : s.beat.play 0 = s.beat.flow 0 :=
      play_of_lt (Nat.lt_of_lt_of_eq (by decide) (countdown_beat s).symm)
    rw [if_pos (by omega), play_of_le (Nat.le_of_eq heq.symm), heq, Nat.sub_self, hrest]
    rfl

/-! ## From event to event -/

/-- The clocks stand where they may: a frame is not over, the sequencer waits, and the
frequencies are ones that there are. -/
structure Timed (s : Sound) : Prop where
  rate : s.resampler.Supported
  phase : s.resampler.phase < clockRate
  countdown : 1 ≤ s.countdown
  tuned : s.Tuned

/-- They stand so in every unit that is in range. -/
theorem InRange.timed (h : s.InRange) : s.Timed where
  rate := h.resampler.supported
  phase := h.resampler.phase
  countdown := h.sequencer.countdownMin
  tuned := ⟨Nat.le_of_lt_succ h.swept.square.frequency, Nat.le_of_lt_succ h.square.frequency,
    Nat.le_of_lt_succ h.wave.frequency⟩

theorem run_ne_zero {dots : Nat} (h : dots ≠ 0) : min dots s.untilEvent ≠ 0 := by
  have hu : 1 ≤ s.untilEvent := Nat.le_max_left ..
  omega

/-- What a number of dots makes of the unit, its resampler apart. -/
def moved (dots : Nat) (s : Sound) : Sound := if s.powered then s.play dots else s

theorem bare_moved (dots : Nat) (s : Sound) : (s.moved dots).bare = s.bare.moved dots := by
  rw [moved, apply_ite bare, bare_play]
  rfl

theorem Tuned.play (h : s.Tuned) (dots : Nat) : (s.play dots).Tuned :=
  (repeat_invariant (P := Tuned) (fun _ ht => ht.beat) _ h).flow _

theorem one_le_countdown_play (dots : Nat) (s : Sound) : 1 ≤ (s.play dots).countdown := by
  rw [Sound.play, countdown_flow, sinceBeat, beats]
  split
  · rw [Nat.repeat]
    omega
  · have hlt : (dots - s.countdown) % sequencerDots < sequencerDots := Nat.mod_lt _ (by decide)
    rw [Nat.add_comm 1, Nat.repeat, countdown_beat]
    omega

theorem Tuned.moved (h : s.Tuned) (dots : Nat) : (s.moved dots).Tuned := by
  rw [Sound.moved]
  split
  · exact h.play dots
  · exact h

theorem one_le_countdown_moved (h : 1 ≤ s.countdown) (dots : Nat) :
    1 ≤ (s.moved dots).countdown := by
  rw [moved]
  split
  · exact one_le_countdown_play dots s
  · exact h

theorem tuned_bare : s.bare.Tuned ↔ s.Tuned :=
  ⟨fun h => ⟨h.swept, h.square, h.wave⟩, fun h => ⟨h.swept, h.square, h.wave⟩⟩

theorem powered_flow (dots : Nat) (s : Sound) : (s.flow dots).powered = s.powered := by
  rw [flow]
  split <;> rfl

theorem powered_beat (s : Sound) : s.beat.powered = s.powered :=
  (Quietens.refl _).clockSequencer.powered.trans (powered_flow s.countdown s)

theorem powered_play (dots : Nat) (s : Sound) : (s.play dots).powered = s.powered := by
  rw [play, powered_flow]
  exact repeat_unchanged powered_beat _ s

theorem moved_add (ht : s.Tuned) (hc : 1 ≤ s.countdown) (m n : Nat) :
    s.moved (m + n) = (s.moved m).moved n := by
  by_cases hp : s.powered = true
  · have hm : s.moved m = s.play m := if_pos hp
    rw [hm, moved, if_pos hp, moved, powered_play, if_pos hp, play_add ht hc]
  · have hm (dots : Nat) : s.moved dots = s := if_neg hp
    rw [hm, hm, hm]

/-- A run up to the next event. -/
theorem bare_advanceWithin (h : s.Timed) {dots : Nat} (hz : dots ≠ 0) (hd : dots ≤ s.untilEvent) :
    (s.advanceWithin dots).bare = s.bare.moved dots := by
  have hm : (if s.powered then s.advanceChannels dots else s) = s.moved dots := by
    rw [moved]
    split
    · rename_i hp
      exact advanceChannels_eq_play hz (le_countdown h.countdown hp hd)
    · rfl
  rw [← bare_moved, advanceWithin]
  dsimp only
  rw [hm]
  split <;> rfl

theorem Timed.advanceWithin (h : s.Timed) {dots : Nat} (hz : dots ≠ 0) (hd : dots ≤ s.untilEvent) :
    (s.advanceWithin dots).Timed := by
  have hb : (s.advanceWithin dots).bare = (s.moved dots).bare :=
    (bare_advanceWithin h hz hd).trans (bare_moved dots s).symm
  have hcountdown := congrArg Sound.countdown hb
  refine ⟨?_, ?_, ?_, ?_⟩
  · rw [resampler_advanceWithin]
    exact h.rate.advance dots s.mix
  · rw [resampler_advanceWithin]
    exact Resampler.phase_advance_lt h.rate h.phase (le_untilFrame h.rate h.phase hd) s.mix
  · exact Nat.le_trans (one_le_countdown_moved h.countdown dots) (Nat.le_of_eq hcountdown.symm)
  · rw [← tuned_bare, hb, tuned_bare]
    exact h.tuned.moved dots

theorem Timed.advance (h : s.Timed) (dots : Nat) : (s.advance dots).Timed := by
  induction dots, s using Sound.advance.induct with
  | case1 s =>
    rw [Sound.advance, if_pos rfl]
    exact h
  | case2 dots s hd run ih =>
    rw [Sound.advance, if_neg hd]
    exact ih (h.advanceWithin (run_ne_zero hd) (Nat.min_le_right _ _))

/-- Where the runs are cut makes no difference to the channels and the sequencer. -/
theorem bare_advance (h : s.Timed) (dots : Nat) : (s.advance dots).bare = s.bare.moved dots := by
  induction dots, s using Sound.advance.induct with
  | case1 s =>
    have hzero : s.moved 0 = s := by
      rw [moved, play_of_lt h.countdown]
      exact ite_self s
    rw [Sound.advance, if_pos rfl, ← bare_moved, hzero]
  | case2 dots s hd run ih =>
    have hrun : run ≤ dots := Nat.min_le_left _ _
    have hlast : run ≤ s.untilEvent := Nat.min_le_right _ _
    have hz : run ≠ 0 := run_ne_zero hd
    rw [Sound.advance, if_neg hd]
    rw [ih (h.advanceWithin hz hlast), bare_advanceWithin h hz hlast,
      ← moved_add (tuned_bare.mpr h.tuned) h.countdown, Nat.add_sub_cancel' hrun]

theorem dots_advance (h : s.Timed) (dots : Nat) :
    (s.advance dots).resampler.dots = s.resampler.gathered dots := by
  induction dots, s using Sound.advance.induct with
  | case1 s =>
    rw [Sound.advance, if_pos rfl, Resampler.gathered, Nat.zero_mul, Nat.add_zero, if_pos h.phase,
      Nat.add_zero]
  | case2 dots s hd run ih =>
    have hlast : run ≤ s.untilEvent := Nat.min_le_right _ _
    have hu := le_untilFrame h.rate h.phase hlast
    rw [Sound.advance, if_neg hd]
    rw [ih (h.advanceWithin (run_ne_zero hd) hlast), resampler_advanceWithin,
      Resampler.gathered_advance h.rate h.phase hu (Nat.min_le_left _ _)]

/-! ## Any portions -/

/-- The unit without its sums, its filters and the levels of its frames: the channels, the
registers, the sequencer, the phase, the dots summed up and how many frames wait. -/
def timing (s : Sound) : Sound :=
  { s with
    resampler :=
      { rate := s.resampler.rate, phase := s.resampler.phase, dots := s.resampler.dots }
    frames := .replicate s.frames.size default }

theorem timing_congr {t : Sound} (hb : s.bare = t.bare) (hr : s.resampler.rate = t.resampler.rate)
    (hp : s.resampler.phase = t.resampler.phase) (hd : s.resampler.dots = t.resampler.dots)
    (hf : s.frames.size = t.frames.size) : s.timing = t.timing := by
  have hs (u : Sound) : u.timing = { u.bare with
      resampler :=
        { rate := u.resampler.rate, phase := u.resampler.phase, dots := u.resampler.dots }
      frames := .replicate u.frames.size default } := rfl
  rw [hs, hs, hb, hr, hp, hd, hf]

theorem rate_advance (dots : Nat) (s : Sound) :
    (s.advance dots).resampler.rate = s.resampler.rate := congrArg Prod.snd (config_advance dots s)

/-- The whole frames within the parts of a frame that the dots make, and the rest. -/
theorem Timed.frames_phase (h : s.Timed) (dots : Nat) :
    (s.advance dots).frames.size =
      s.frames.size + (s.resampler.phase + dots * s.sampleRate) / clockRate ∧
    (s.advance dots).resampler.phase =
      (s.resampler.phase + dots * s.sampleRate) % clockRate := by
  have hparts := sampled_advance dots s
  have hphase := (h.advance dots).phase
  have hclock : clockRate = 4194304 := rfl
  rw [sampled, sampled, Nat.add_assoc, hclock] at hparts
  rw [hclock] at hphase ⊢
  omega

theorem timing_advance_add (h : s.Timed) (m n : Nat) :
    ((s.advance m).advance n).timing = (s.advance (m + n)).timing := by
  have hm := h.advance m
  have hrate : (s.advance m).sampleRate = s.sampleRate := rate_advance m s
  have hparts : s.resampler.phase + (m + n) * s.sampleRate =
      s.resampler.phase + m * s.sampleRate + n * s.sampleRate := by
    rw [Nat.add_mul, Nat.add_assoc]
  obtain ⟨hsize, hphase⟩ := h.frames_phase m
  obtain ⟨hsizeOn, hphaseOn⟩ := hm.frames_phase n
  obtain ⟨hsizeAll, hphaseAll⟩ := h.frames_phase (m + n)
  apply timing_congr
  · rw [bare_advance hm, bare_advance h, bare_advance h,
      moved_add (tuned_bare.mpr h.tuned) h.countdown]
  · rw [rate_advance, rate_advance, rate_advance]
  · rw [hphaseOn, hphase, hrate, hphaseAll, hparts, Nat.mod_add_mod]
  · rw [dots_advance hm, dots_advance h,
      Resampler.gathered_add h.rate.pos hrate hphase (dots_advance h m)]
  · have hclock : clockRate = 4194304 := rfl
    rw [hsizeOn, hphase, hrate, hsize, hsizeAll, hparts, hclock]
    omega

/-- The gates of the second, the third and the fourth channel. -/
def meteredGates : List (Sound → Gate) := [(·.square.gate), (·.wave.gate), (·.noise.gate)]

theorem metered_of_mem {gate : Sound → Gate} (h : gate ∈ meteredGates) : Metered gate := by
  simp only [meteredGates, List.mem_cons, List.not_mem_nil, or_false] at h
  rcases h with rfl | rfl | rfl
  · exact metered_square
  · exact metered_wave
  · exact metered_noise

/-- The frames that a run makes, the phase it leaves and the steps of the sequencer in it are
what the clocks say, and a length runs out with the even steps; and a run in two portions is
a run in one, the levels of the frames apart. -/
theorem timing_exact (s : Sound) (h : s.Timed) (dots : Nat) :
    let t := s.advance dots
    let parts := s.resampler.phase + dots * s.sampleRate
    let steps := if dots < s.countdown then 0 else 1 + (dots - s.countdown) / sequencerDots
    (∃ made, t.frames = s.frames ++ made ∧ made.size = parts / clockRate) ∧
      t.resampler.phase = parts % clockRate ∧
      (s.powered = true →
        t.bare = (Nat.repeat beat steps s.bare).flow (s.sinceBeat dots) ∧
        ∀ gate ∈ meteredGates, (gate s).on = true → (gate s).lengthEnabled = true →
          1 ≤ (gate s).length → ((gate t).on = false ↔
            (gate s).length ≤
              (List.range steps).countP fun i => (s.step + i) % sequencerSteps % 2 = 0)) ∧
      ∀ m n, ((s.advance m).advance n).timing = (s.advance (m + n)).timing := by
  intro t parts steps
  obtain ⟨hsize, hphase⟩ := h.frames_phase dots
  obtain ⟨made, hmade⟩ := frames_advance dots s
  have hcount : s.frames.size + made.size = s.frames.size + parts / clockRate := by
    rw [← hsize, hmade, Array.size_append]
  refine ⟨⟨made, hmade, Nat.add_left_cancel hcount⟩, hphase, fun hp => ?_, timing_advance_add h⟩
  have hbare : t.bare = (Nat.repeat beat steps s.bare).flow (s.sinceBeat dots) :=
    (bare_advance h dots).trans (if_pos hp)
  refine ⟨hbare, fun gate hgate hon henabled hlength => ?_⟩
  have hg := metered_of_mem hgate
  have hb (u : Sound) : gate u.bare = gate u := by
    simp only [meteredGates, List.mem_cons, List.not_mem_nil, or_false] at hgate
    rcases hgate with rfl | rfl | rfl <;> rfl
  rw [← hb t, hbare, hg.off_iff (s := s.bare) ((hb s).symm ▸ hon) ((hb s).symm ▸ henabled)
    ((hb s).symm ▸ hlength), hb]
  rfl

/-- A unit with the second channel on for two more clocks of its length. -/
def ringing : Sound :=
  { off true minSampleRate with
    powered := true
    square := { gate := { on := true, dac := true, length := 2, lengthEnabled := true } } }

theorem timing_exact_ringing :
    ringing.Timed ∧ (ringing.advance 24576).frames.size = 46 ∧
      (ringing.advance 16384).square.gate.on ≠ false ∧
      (ringing.advance 24576).square.gate.on = false := by
  have h : ringing.Timed := by
    refine ⟨⟨by decide, by decide⟩, by decide, by decide, ⟨by decide, by decide, by decide⟩⟩
  obtain ⟨-, -, htwo, -⟩ := timing_exact ringing h 16384
  obtain ⟨⟨made, hmade, hsize⟩, -, hthree, -⟩ := timing_exact ringing h 24576
  have hgate : (·.square.gate) ∈ meteredGates := List.mem_cons_self
  refine ⟨h, ?_, ?_, ?_⟩
  · rw [hmade, Array.size_append, hsize]
    decide
  · rw [ne_eq, (htwo rfl).2 _ hgate rfl rfl (by decide)]
    decide
  · rw [(hthree rfl).2 _ hgate rfl rfl (by decide)]
    decide

end DotMatrix.Sound
