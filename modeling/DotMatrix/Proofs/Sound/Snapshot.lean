import DotMatrix.Proofs.Sound.ChannelLayouts
import DotMatrix.Proofs.Sound.Range
import Mathlib.Algebra.Ring.Int.Defs

/-!
# The sound unit in a snapshot

The section of a sound unit in range tells all of it but the frames that wait for the
host. Reading it back brings the frequency timers down to the periods of the current
frequencies, and changes nothing else.
-/
namespace DotMatrix.Sound

open Snapshot Snapshot.Layout

/-! ## The resampler -/

@[simp] theorem Filter.length_write_layout (f : Filter) : (layout.write f).length = 8 := by
  simp [layout]

theorem Filter.restores_layout (f f₀ : Filter) : layout.Restores f f₀ f := by
  have hi : f.input.toNat < byteSpan 4 := f.input.toNat_lt
  have ho : f.output.toNat < byteSpan 4 := f.output.toNat_lt
  apply Restores.congr
  · exact restores_cons (restores_number hi) <|
      restores_cons (restores_number ho) restores_nil
  · rw [UInt32.ofNat_toNat, UInt32.ofNat_toNat]

theorem Filter.reads_layout (f : Filter) : layout.Reads 8 f fun _ => True := by
  apply reads_cons_number; intro _ _
  apply reads_cons_number; intro _ _
  exact reads_nil trivial

theorem Filter.write_inj {f f' : Filter} (hw : layout.write f = layout.write f') : f = f' := by
  have hr := restores_layout f f []
  rw [hw, restores_layout f' f []] at hr
  exact (congrArg Prod.fst hr).symm

/-- A sum that fits its 64 bits can be read back. -/
theorem signed_stored {n : Int} (h : -2 ^ 63 ≤ n) (h' : n < 2 ^ 63) : signed (stored n) = n := by
  have hi : Int64.ofNat (Int64.ofInt n).toUInt64.toNat = Int64.ofInt n := by
    rw [← UInt64.toInt64_ofNat', UInt64.ofNat_toNat, Int64.toInt64_toUInt64]
  rw [signed, stored, hi, Int64.toInt_ofInt_of_le h h']

theorem stored_lt (n : Int) : stored n < byteSpan 8 := (Int64.ofInt n).toUInt64.toNat_lt

namespace Resampler

variable {r r' : Resampler}

theorem InRange.dots_lt (h : r.InRange) : r.dots < 2000 := by
  have hp := h.phase
  have hd := h.dots
  simp only [minSampleRate, maxFrameDots, clockRate] at hp hd
  omega

/-- A frame that keeps pace is no longer than the longest. -/
theorem InRange.dots_le_of_paced (h : r.InRange) (hp : r.Paced) : r.dots ≤ maxFrameDots := by
  have hc := h.phase
  simp only [Paced, minSampleRate] at hp
  simp only [maxFrameDots, minSampleRate, clockRate] at hc ⊢
  omega

theorem bounded_signed {dots : Nat} {sum : Int} (hd : dots < 2000) (h : Bounded dots sum) :
    signed (stored sum) = sum := by
  rcases h with ⟨hl, hl'⟩
  simp only [maxLevel, unitGain] at hl hl'
  exact signed_stored (by omega) (by omega)

theorem bound_of_bounded {sum : Int} (h : Bounded r.dots sum) : r.bound sum = sum := by
  rcases h with ⟨hl, hl'⟩
  simp only [bound]
  omega

theorem bounded_bound (r : Resampler) (sum : Int) : Bounded r.dots (r.bound sum) := by
  have hn : (0 : Int) ≤ r.dots * maxLevel :=
    Int.mul_nonneg (Int.natCast_nonneg _) (by decide)
  simp only [Bounded, bound]
  omega

@[simp] theorem length_write_layout (r : Resampler) : (layout.write r).length = 40 := by
  simp [layout]

theorem restores_layout (h : r.InRange) (hd : r.dots ≤ maxFrameDots) (r₀ : Resampler) :
    layout.Restores r r₀ { r with rate := r₀.rate } := by
  have hp : r.phase < byteSpan 4 := lt_byteSpan h.phase
  have hd₄ : r.dots < byteSpan 4 := lt_byteSpan h.dots_lt
  have hl := bounded_signed h.dots_lt h.left
  have hr := bounded_signed h.dots_lt h.right
  apply Restores.congr
  · exact restores_cons (restores_number hp) <|
      restores_cons (restores_number (stored_lt r.left)) <|
      restores_cons (restores_number (stored_lt r.right)) <|
      restores_cons (restores_number hd₄) <|
      restores_cons (restores_require (decide_eq_true hd)) <|
      restores_cons restores_adjust <|
      restores_cons (restores_part (Filter.restores_layout r.leftFilter r₀.leftFilter)) <|
      restores_cons (restores_part (Filter.restores_layout r.rightFilter r₀.rightFilter))
        restores_nil
  · have hb := bound_of_bounded h.left
    have hb' := bound_of_bounded h.right
    simp only [bound] at hb hb'
    simp only [Nat.mod_eq_of_lt h.phase, hl, hr, bound, hb, hb']

theorem reads_layout (hs : r.Supported) : layout.Reads 40 r
    fun r' => r'.InRange ∧ r'.dots ≤ maxFrameDots ∧ r'.rate = r.rate := by
  apply reads_cons_number; intro phase _
  apply reads_cons_number; intro _ _
  apply reads_cons_number; intro _ _
  apply reads_cons_number; intro dots _
  apply reads_cons_require; intro hd
  apply reads_cons_adjust
  apply reads_cons_part (Filter.reads_layout _); intro _ _
  apply reads_cons_part (Filter.reads_layout _); intro _ _
  have hdots : dots ≤ maxFrameDots := of_decide_eq_true hd
  have hslack := Nat.mul_le_mul_right minSampleRate hdots
  have hb (r : Resampler) (hr : r.dots = dots) (sum : Int) : Bounded dots (r.bound sum) :=
    hr ▸ bounded_bound r sum
  exact reads_nil ⟨⟨⟨hs.min, hs.max⟩, Nat.mod_lt _ (Nat.zero_lt_succ _), hb _ rfl _, hb _ rfl _,
    Nat.le_trans hslack (Nat.le_add_left _ _)⟩, hdots, rfl⟩

theorem write_inj (h : r.InRange) (h' : r'.InRange) (hrate : r.rate = r'.rate)
    (hw : layout.write r = layout.write r') : r = r' := by
  rcases eq_of_write_number hw (lt_byteSpan h.phase) (lt_byteSpan h'.phase) with ⟨hp, hw⟩
  rcases eq_of_write_number hw (stored_lt r.left) (stored_lt r'.left) with ⟨hl, hw⟩
  rcases eq_of_write_number hw (stored_lt r.right) (stored_lt r'.right) with ⟨hr, hw⟩
  rcases eq_of_write_number hw (lt_byteSpan h.dots_lt) (lt_byteSpan h'.dots_lt) with ⟨hd, hw⟩
  rcases eq_of_write_cons (by simp) hw with ⟨_, hw⟩
  rcases eq_of_write_cons (by simp) hw with ⟨_, hw⟩
  rcases eq_of_write_part (by simp) hw with ⟨hf, hw⟩
  rcases eq_of_write_part (by simp) hw with ⟨hf', _⟩
  have hl := congrArg signed hl
  rw [bounded_signed h.dots_lt h.left, bounded_signed h'.dots_lt h'.left] at hl
  have hr := congrArg signed hr
  rw [bounded_signed h.dots_lt h.right, bounded_signed h'.dots_lt h'.right] at hr
  have hf := Filter.write_inj hf
  have hf' := Filter.write_inj hf'
  rcases r with ⟨rate, phase, left, right, dots, leftFilter, rightFilter⟩
  rcases r' with ⟨rate', phase', left', right', dots', leftFilter', rightFilter'⟩
  simp only at hrate hp hl hr hd hf hf'
  rw [hrate, hp, hl, hr, hd, hf, hf']

end Resampler

/-! ## The unit -/

variable {s s' : Sound}

/-- No frequency timer lies beyond what the current frequencies can have started. -/
structure TimersInRange (s : Sound) : Prop where
  swept : s.swept.square.TimerInRange
  square : s.square.TimerInRange
  wave : s.wave.TimerInRange
  noise : s.noise.TimerInRange

/-- The timers brought down to what the current frequencies can have started. -/
def clampTimers (s : Sound) : Sound :=
  { s with
    swept := s.swept.mapSquare Square.clampTimer
    square := s.square.clampTimer
    wave := s.wave.clampTimer
    noise := s.noise.clampTimer }

theorem clampTimers_of_inRange (h : s.TimersInRange) : s.clampTimers = s := by
  simp only [clampTimers, Swept.mapSquare, Square.clampTimer_of_inRange h.swept,
    Square.clampTimer_of_inRange h.square, Wave.clampTimer_of_inRange h.wave,
    Noise.clampTimer_of_inRange h.noise]

theorem timersInRange_clampTimers (s : Sound) : s.clampTimers.TimersInRange :=
  ⟨Square.timerInRange_clampTimer _, Square.timerInRange_clampTimer _,
    Wave.timerInRange_clampTimer _, Noise.timerInRange_clampTimer _⟩

theorem InRange.clampTimers (h : s.InRange) : s.clampTimers.InRange :=
  { h with
    swept := h.swept.mapSquare fun _ hs => hs.clampTimer
    square := h.square.clampTimer
    wave := h.wave.clampTimer
    noise := h.noise.clampTimer }

theorem InRange.takeFrames (h : s.InRange) : s.takeFrames.1.InRange := { h with }

@[simp] theorem length_write_layout (s : Sound) : (layout.write s).length = 163 := by
  have hr : ((block (fun s : Sound => s.written) fun s m => { s with written := m }).write s).length
      = 22 := length_write_block
  simp [layout, hr]

/-- A section of a unit in range gives it back, with its timers clamped. -/
theorem restores_layout (h : s.InRange) (hd : s.resampler.dots ≤ maxFrameDots) (s₀ : Sound) :
    layout.Restores s s₀ { s.clampTimers with
      cgb := s₀.cgb
      resampler := { s.resampler with rate := s₀.resampler.rate }
      frames := #[] } := by
  have hq : s.step < byteSpan 1 := lt_byteSpan h.sequencer.step
  have hc : s.countdown < byteSpan 4 := lt_byteSpan_of_le h.sequencer.countdownMax
  apply Restores.congr
  · exact restores_cons (restores_part (Swept.restores_layout h.swept s₀.swept)) <|
      restores_cons (restores_part (Square.restores_layout h.square s₀.square)) <|
      restores_cons (restores_part (Wave.restores_layout h.wave s₀.wave)) <|
      restores_cons (restores_part (Noise.restores_layout h.noise s₀.noise)) <|
      restores_cons restores_block <| restores_cons restores_block <|
      restores_cons restores_byte <| restores_cons restores_byte <| restores_cons restores_flag <|
      restores_cons (restores_number hq) <| restores_cons (restores_number hc) <|
      restores_cons (restores_part (Resampler.restores_layout h.resampler hd s₀.resampler)) <|
      restores_cons restores_adjust restores_nil
  · simp only [Nat.mod_eq_of_lt h.sequencer.step, Nat.max_eq_left h.sequencer.countdownMin,
      Nat.min_eq_left h.sequencer.countdownMax, clampTimers]

/-- What a unit becomes on its way through a section. -/
def restored (s : Sound) : Sound := { s.clampTimers with frames := #[] }

theorem restores_restored (h : s.InRange) (hd : s.resampler.dots ≤ maxFrameDots) {s₀ : Sound}
    (hc : s₀.config = s.config) : layout.Restores s s₀ s.restored := by
  have hr := restores_layout h hd s₀
  rcases Prod.mk.inj hc with ⟨hcgb, hrate⟩
  rwa [hcgb, hrate] at hr

theorem reads_layout (h : s.resampler.Supported) : layout.Reads 163 s fun s' =>
    s'.InRange ∧ s'.TimersInRange ∧ s'.resampler.dots ≤ maxFrameDots ∧ s'.config = s.config ∧
      s'.frames = #[] := by
  apply reads_cons_part (Swept.reads_layout _); intro _ hc
  apply reads_cons_part (Square.reads_layout _); intro _ hs
  apply reads_cons_part (Wave.reads_layout _); intro _ hw
  apply reads_cons_part (Noise.reads_layout _); intro _ hn
  apply reads_cons_block; intro _
  apply reads_cons_block; intro _
  apply reads_cons_byte; intro _
  apply reads_cons_byte; intro _
  apply reads_cons_flag; intro _
  apply reads_cons_number; intro step _
  apply reads_cons_number; intro countdown _
  apply reads_cons_part (n := 40)
  · exact Resampler.reads_layout h
  intro r hr
  apply reads_cons_adjust
  have hq : Sequenced (step % sequencerSteps) (min (max countdown 1) sequencerDots) :=
    ⟨Nat.mod_lt _ (Nat.zero_lt_succ _),
      Nat.le_min.mpr ⟨Nat.le_max_right _ _, Nat.succ_le_succ (Nat.zero_le _)⟩, Nat.min_le_right _ _⟩
  exact reads_nil ⟨⟨hc.1, hs.1, hw.1, hn.1, hq, hr.1⟩, ⟨hc.2, hs.2, hw.2, hn.2⟩, hr.2.1,
    congrArg (Prod.mk s.cgb) hr.2.2, rfl⟩

/-- Units of one configuration and one section differ in the waiting frames only. -/
theorem write_inj (h : s.InRange) (h' : s'.InRange) (hc : s.config = s'.config)
    (hw : layout.write s = layout.write s') : { s with frames := #[] } = { s' with frames := #[] } := by
  rcases Prod.mk.inj hc with ⟨hcgb, hrate⟩
  rcases eq_of_write_part (by simp) hw with ⟨hswept, hw⟩
  rcases eq_of_write_part (by simp) hw with ⟨hsquare, hw⟩
  rcases eq_of_write_part (by simp) hw with ⟨hwave, hw⟩
  rcases eq_of_write_part (by simp) hw with ⟨hnoise, hw⟩
  rcases eq_of_write_block hw with ⟨hram, hw⟩
  rcases eq_of_write_block hw with ⟨hwritten, hw⟩
  rcases eq_of_write_byte hw with ⟨hvolumes, hw⟩
  rcases eq_of_write_byte hw with ⟨hpanning, hw⟩
  rcases eq_of_write_flag hw with ⟨hpowered, hw⟩
  obtain ⟨hstep, hw⟩ :=
    eq_of_write_number hw (lt_byteSpan h.sequencer.step) (lt_byteSpan h'.sequencer.step)
  obtain ⟨hcountdown, hw⟩ := eq_of_write_number hw
    (lt_byteSpan_of_le h.sequencer.countdownMax) (lt_byteSpan_of_le h'.sequencer.countdownMax)
  rcases eq_of_write_part (by simp) hw with ⟨hresampler, _⟩
  have hswept := Swept.write_inj h.swept h'.swept hswept
  have hsquare := Square.write_inj h.square h'.square hsquare
  have hwave := Wave.write_inj h.wave h'.wave hwave
  have hnoise := Noise.write_inj h.noise h'.noise hnoise
  have hresampler := Resampler.write_inj h.resampler h'.resampler hrate hresampler
  simp only [hcgb, hswept, hsquare, hwave, hnoise, hram, hwritten, hvolumes, hpanning, hpowered,
    hstep, hcountdown, hresampler]

/-- The section of the restored unit is the old one exactly if no timer was clamped. -/
theorem write_restored_iff (h : s.InRange) :
    layout.write s.restored = layout.write s ↔ s.TimersInRange := by
  constructor
  · intro hw
    have hr : s.restored.InRange := { h.clampTimers with }
    have he : { s.restored with frames := #[] } = { s with frames := #[] } :=
      write_inj hr h rfl hw
    have ht : ({ s.restored with frames := #[] } : Sound).TimersInRange :=
      { timersInRange_clampTimers s with }
    rw [he] at ht
    exact ⟨ht.swept, ht.square, ht.wave, ht.noise⟩
  · intro ht
    rw [restored, clampTimers_of_inRange ht]
    rfl

end DotMatrix.Sound
