import DotMatrix.Proofs.Word
import DotMatrix.Sound.Noise
import DotMatrix.Sound.Wave

/-!
# The ranges of the channels

Every register, counter and timer of the four channels keeps to its bits. A frequency
timer stays below the longest period that there is; it may well lie beyond the period of
the frequency that has been written since it was last started.
-/
namespace DotMatrix.Sound

theorem Countdown.left_le {period timer dots bound : Nat} (ht : timer ≤ bound)
    (hp : period ≤ bound) : Countdown.left period timer dots ≤ bound := by
  rw [Countdown.left]
  split <;> omega

/-! ## Gates -/

namespace Gate

variable {g : Gate} {full : Nat}

theorem length_clock_le (g : Gate) : g.clock.length ≤ g.length := by
  rw [clock]
  split
  · exact Nat.sub_le _ _
  · exact Nat.le_refl _

theorem length_control_le (h : g.length ≤ full) (late : Bool) (value : UInt8) :
    (g.control full late value).length ≤ full := by
  have hc (g' : Gate) (h' : g'.length ≤ full) :
      (if hasBit value 0x80 && g'.length == 0 then
        { g' with length := if hasBit value 0x40 && late then full - 1 else full }
      else g').length ≤ full := by
    split
    · change (if hasBit value 0x40 && late then full - 1 else full) ≤ full
      split
      · exact Nat.sub_le _ _
      · exact Nat.le_refl _
    · exact h'
  refine hc _ ?_
  split
  · exact Nat.le_trans (length_clock_le _) h
  · exact h

end Gate

/-! ## Envelopes -/

namespace Envelope

variable {e : Envelope}

structure InRange (e : Envelope) : Prop where
  initial : e.initial < 16
  period : e.period < 8
  volume : e.volume < 16
  timer : e.timer < 8

theorem inRange_default : InRange {} := ⟨by decide, by decide, by decide, by decide⟩

theorem InRange.step (h : e.InRange) : e.step.InRange := by
  have hv := h.volume
  rw [Envelope.step]
  split
  · refine ⟨h.initial, h.period, ?_, h.timer⟩
    change (if e.volume < maxVolume then e.volume + 1 else e.volume) < 16
    by_cases hl : e.volume < maxVolume
    · rw [if_pos hl]
      exact Nat.succ_lt_succ hl
    · rwa [if_neg hl]
  · refine ⟨h.initial, h.period, ?_, h.timer⟩
    change e.volume - 1 < 16
    omega

theorem InRange.clock (h : e.InRange) : e.clock.InRange := by
  rw [Envelope.clock]
  split
  · exact h
  split
  · exact ⟨h.initial, h.period, h.volume, Nat.lt_of_le_of_lt (Nat.sub_le _ _) h.timer⟩
  · refine InRange.step ?_
    exact ⟨h.initial, h.period, h.volume, h.period⟩

theorem InRange.write (h : e.InRange) (value : UInt8) : (e.write value).InRange := by
  have hv := value.toNat_lt
  refine ⟨?_, Nat.mod_lt _ (by decide), h.volume, h.timer⟩
  change value.toNat / 16 < 16
  omega

theorem InRange.trigger (h : e.InRange) : e.trigger.InRange :=
  ⟨h.initial, h.period, h.initial, h.period⟩

end Envelope

/-! ## Square channels -/

theorem setLow_lt (frequency : Nat) (value : UInt8) : setLow frequency value < 2048 := by
  have hv := value.toNat_lt
  rw [setLow]
  omega

theorem setHigh_lt (frequency : Nat) (value : UInt8) : setHigh frequency value < 2048 := by
  rw [setHigh]
  omega

namespace Square

variable {s : Square}

def maxTimer : Nat := 8192

structure InRange (s : Square) : Prop where
  length : s.gate.length ≤ maxLength
  duty : s.duty < 4
  position : s.position < 8
  frequency : s.frequency < 2048
  timer : s.timer ≤ maxTimer
  envelope : s.envelope.InRange

theorem period_le (s : Square) : s.period ≤ maxTimer := by
  simp only [period, maxTimer]
  omega

/-- A silent channel is in range if its length is. -/
theorem inRange_silent {g : Gate} (h : g.length ≤ maxLength) : InRange { gate := g } where
  length := h
  duty := Nat.zero_lt_succ _
  position := Nat.zero_lt_succ _
  frequency := Nat.zero_lt_succ _
  timer := Nat.zero_le _
  envelope := Envelope.inRange_default

theorem InRange.advance (h : s.InRange) (dots : Nat) : (s.advance dots).InRange := by
  rw [Square.advance]
  split
  · exact { h with
      position := Nat.mod_lt _ (by decide)
      timer := Countdown.left_le h.timer (period_le s) }
  · exact h

theorem InRange.clockLength (h : s.InRange) : s.clockLength.InRange :=
  { h with length := Nat.le_trans (Gate.length_clock_le _) h.length }

theorem InRange.clockEnvelope (h : s.InRange) : s.clockEnvelope.InRange :=
  { h with envelope := h.envelope.clock }

theorem InRange.writeLength (h : s.InRange) (value : UInt8) : (s.writeLength value).InRange :=
  { h with length := Nat.sub_le _ _ }

theorem InRange.writeDuty (h : s.InRange) (value : UInt8) : (s.writeDuty value).InRange := by
  have hd : value.toNat / 64 < 4 := by
    have := value.toNat_lt
    omega
  exact { h.writeLength value with duty := hd }

theorem InRange.writeEnvelope (h : s.InRange) (value : UInt8) : (s.writeEnvelope value).InRange :=
  { h with envelope := h.envelope.write value }

theorem InRange.writeFrequency (h : s.InRange) (value : UInt8) :
    (s.writeFrequency value).InRange :=
  { h with frequency := setLow_lt _ _ }

theorem InRange.trigger (h : s.InRange) : s.trigger.InRange :=
  { h with timer := period_le s, envelope := h.envelope.trigger }

theorem InRange.writeControl (h : s.InRange) (late : Bool) (value : UInt8) :
    (s.writeControl late value).InRange := by
  have hs : InRange { s with
      frequency := setHigh s.frequency value, gate := s.gate.control maxLength late value } :=
    { h with
      length := Gate.length_control_le h.length late value
      frequency := setHigh_lt _ _ }
  unfold Square.writeControl
  simp only
  split
  · exact hs.trigger
  · exact hs

/-- A new gate with no more length. -/
theorem InRange.withGate (h : s.InRange) {g : Gate} (hg : g.length ≤ maxLength) :
    InRange { s with gate := g } :=
  { h with length := hg }

end Square

/-! ## The sweep -/

structure Sweep.InRange (w : Sweep) : Prop where
  period : w.period < 8
  shift : w.shift < 8
  timer : w.timer < 16
  shadow : w.shadow < 0x1000

theorem Sweep.inRange_default : Sweep.InRange {} := ⟨by decide, by decide, by decide, by decide⟩

theorem Sweep.InRange.reload {w : Sweep} (h : w.InRange) : w.reload.InRange := by
  refine ⟨h.period, h.shift, ?_, h.shadow⟩
  have hp := h.period
  change (if w.period = 0 then 8 else w.period) < 16
  split <;> omega

theorem Sweep.InRange.write {w : Sweep} (h : w.InRange) (value : UInt8) :
    (w.write value).1.InRange :=
  ⟨Nat.mod_lt _ (by decide), Nat.mod_lt _ (by decide), h.timer, h.shadow⟩

namespace Swept

variable {c : Swept}

structure InRange (c : Swept) : Prop where
  square : c.square.InRange
  sweep : c.sweep.InRange

theorem InRange.mapSquare (h : c.InRange) {f : Square → Square}
    (hf : ∀ s, s.InRange → (f s).InRange) : (c.mapSquare f).InRange :=
  ⟨hf _ h.square, h.sweep⟩

theorem InRange.check (h : c.InRange) : c.check.InRange :=
  ⟨h.square.withGate h.square.length, ⟨h.sweep.period, h.sweep.shift, h.sweep.timer, h.sweep.shadow⟩⟩

theorem InRange.step (h : c.InRange) : c.step.InRange := by
  rw [Swept.step]
  simp only
  split
  · rename_i hf
    have hlt : c.sweep.target < 2048 := Nat.lt_succ_of_le hf.1
    refine InRange.check ⟨{ h.check.square with frequency := hlt }, ?_⟩
    exact { h.check.sweep with shadow := Nat.lt_trans hlt (by decide) }
  · exact h.check

theorem InRange.clockSweep (h : c.InRange) : c.clockSweep.InRange := by
  rw [Swept.clockSweep]
  split
  · refine ⟨h.square, { h.sweep with timer := ?_ }⟩
    exact Nat.lt_of_le_of_lt (Nat.sub_le _ _) h.sweep.timer
  · have hr : InRange { c with sweep := c.sweep.reload } := ⟨h.square, h.sweep.reload⟩
    simp only
    split
    · exact hr.step
    · exact hr

theorem InRange.writeSweep (h : c.InRange) (value : UInt8) : (c.writeSweep value).InRange :=
  ⟨h.square.withGate h.square.length, h.sweep.write value⟩

theorem InRange.triggerSweep (h : c.InRange) : c.triggerSweep.InRange := by
  have hr : InRange { c with sweep := { c.sweep with
      shadow := c.square.frequency, fell := false
      on := c.sweep.period != 0 || c.sweep.shift != 0 }.reload } := by
    refine ⟨h.square, Sweep.InRange.reload ?_⟩
    exact { h.sweep with shadow := Nat.lt_trans h.square.frequency (by decide) }
  rw [Swept.triggerSweep]
  simp only
  split
  · exact hr.check
  · exact hr

theorem InRange.writeControl (h : c.InRange) (late : Bool) (value : UInt8) :
    (c.writeControl late value).InRange := by
  have hs : InRange { c with square := c.square.writeControl late value } :=
    ⟨h.square.writeControl late value, h.sweep⟩
  unfold Swept.writeControl
  simp only
  split
  · exact hs.triggerSweep
  · exact hs

end Swept

/-! ## The wave channel -/

namespace Wave

variable {w : Wave}

/-- The longest period, and what the first sample lasts longer. -/
def maxTimer : Nat := 4096 + triggerDelay

structure InRange (w : Wave) : Prop where
  length : w.gate.length ≤ maxLength
  volume : w.volume < 4
  position : w.position < 32
  buffer : w.buffer < 16
  frequency : w.frequency < 2048
  timer : w.timer ≤ maxTimer

theorem period_le (w : Wave) : w.period ≤ 4096 := by
  simp only [period]
  omega

theorem sampleAt_lt (ram : Memory 16) (position : Nat) : sampleAt ram position < 16 := by
  have hb := (ram.get (position / 2)).toNat_lt
  simp only [sampleAt]
  split <;> omega

theorem inRange_silent {g : Gate} (h : g.length ≤ maxLength) : InRange { gate := g } where
  length := h
  volume := Nat.zero_lt_succ _
  position := Nat.zero_lt_succ _
  buffer := Nat.zero_lt_succ _
  frequency := Nat.zero_lt_succ _
  timer := Nat.zero_le _

theorem InRange.advance (h : w.InRange) (ram : Memory 16) (dots : Nat) :
    (w.advance ram dots).InRange := by
  rw [Wave.advance]
  split
  · refine { h with
      position := Nat.mod_lt _ (by decide)
      buffer := ?_
      timer := Countdown.left_le h.timer (Nat.le_trans (period_le w) (Nat.le_add_right _ _)) }
    simp only
    split
    · exact h.buffer
    · exact sampleAt_lt ram _
  · exact h

theorem InRange.clockLength (h : w.InRange) : w.clockLength.InRange :=
  { h with length := Nat.le_trans (Gate.length_clock_le _) h.length }

theorem InRange.writeLength (h : w.InRange) (value : UInt8) : (w.writeLength value).InRange :=
  { h with length := Nat.sub_le _ _ }

theorem InRange.writeDac (h : w.InRange) (value : UInt8) : (w.writeDac value).InRange := { h with }

theorem InRange.writeVolume (h : w.InRange) (value : UInt8) : (w.writeVolume value).InRange :=
  { h with volume := Nat.mod_lt _ (by decide) }

theorem InRange.writeFrequency (h : w.InRange) (value : UInt8) :
    (w.writeFrequency value).InRange :=
  { h with frequency := setLow_lt _ _ }

theorem InRange.trigger (h : w.InRange) : w.trigger.InRange :=
  { h with
    position := Nat.zero_lt_succ _
    timer := Nat.add_le_add_right (period_le w) _ }

theorem InRange.writeControl (h : w.InRange) (late : Bool) (value : UInt8) :
    (w.writeControl late value).InRange := by
  have hw : InRange { w with
      frequency := setHigh w.frequency value, gate := w.gate.control maxLength late value } :=
    { h with
      length := Gate.length_control_le h.length late value
      frequency := setHigh_lt _ _ }
  unfold Wave.writeControl
  simp only
  split
  · exact hw.trigger
  · exact hw

end Wave

/-! ## The noise channel -/

namespace Noise

variable {n : Noise}

def maxTimer : Nat := 16 * 7 * 2 ^ 15

structure InRange (n : Noise) : Prop where
  length : n.gate.length ≤ maxLength
  envelope : n.envelope.InRange
  clockShift : n.clockShift < 16
  divisor : n.divisor < 8
  register : n.register.toNat < 0x8000
  timer : n.timer ≤ maxTimer

theorem InRange.period_le (h : n.InRange) : n.period ≤ maxTimer := by
  have hd := h.divisor
  have hs : 2 ^ n.clockShift ≤ 2 ^ 15 :=
    Nat.pow_le_pow_right (by decide) (Nat.le_of_lt_succ h.clockShift)
  have hb : (if n.divisor = 0 then 8 else 16 * n.divisor) ≤ 16 * 7 := by split <;> omega
  rw [period, Nat.shiftLeft_eq]
  exact Nat.mul_le_mul hb hs

theorem inRange_silent {g : Gate} (h : g.length ≤ maxLength) : InRange { gate := g } where
  length := h
  envelope := Envelope.inRange_default
  clockShift := Nat.zero_lt_succ _
  divisor := Nat.zero_lt_succ _
  register := Nat.zero_lt_succ _
  timer := Nat.zero_le _

theorem shift_lt (short : Bool) {register : UInt16} (h : register.toNat < 0x8000) :
    (shift short register).toNat < 2 ^ 15 := by
  have hhalf : (register / 2).toNat < 2 ^ 15 := by
    rw [UInt16.toNat_div]
    change register.toNat / 2 < 2 ^ 15
    omega
  have hbit : ((register ^^^ register / 2) % 2).toNat < 2 := by
    rw [UInt16.toNat_mod]
    exact Nat.mod_lt _ (by decide)
  have hscaled {k : UInt16} (hk : k.toNat ≤ 0x4000) :
      (k * ((register ^^^ register / 2) % 2)).toNat < 2 ^ 15 := by
    rw [UInt16.toNat_mul]
    have hm := Nat.mul_le_mul hk (Nat.le_of_lt_succ hbit)
    omega
  have hlong := Nat.or_lt_two_pow hhalf (hscaled (k := 0x4000) (by decide))
  unfold shift
  simp only
  split
  · rw [UInt16.toNat_or, UInt16.toNat_and, UInt16.toNat_or]
    exact Nat.or_lt_two_pow (Nat.lt_of_le_of_lt Nat.and_le_left hlong) (hscaled (by decide))
  · rw [UInt16.toNat_or]
    exact hlong

theorem InRange.advance (h : n.InRange) (dots : Nat) : (n.advance dots).InRange := by
  rw [Noise.advance]
  split
  · refine { h with
      register := ?_
      timer := Countdown.left_le h.timer h.period_le }
    exact repeat_invariant (P := fun r : UInt16 => r.toNat < 0x8000) (fun _ => shift_lt n.short) _ h.register
  · exact h

theorem InRange.clockLength (h : n.InRange) : n.clockLength.InRange :=
  { h with length := Nat.le_trans (Gate.length_clock_le _) h.length }

theorem InRange.clockEnvelope (h : n.InRange) : n.clockEnvelope.InRange :=
  { h with envelope := h.envelope.clock }

theorem InRange.writeLength (h : n.InRange) (value : UInt8) : (n.writeLength value).InRange :=
  { h with length := Nat.sub_le _ _ }

theorem InRange.writeEnvelope (h : n.InRange) (value : UInt8) : (n.writeEnvelope value).InRange :=
  { h with envelope := h.envelope.write value }

theorem InRange.writeClock (h : n.InRange) (value : UInt8) : (n.writeClock value).InRange := by
  have hs : value.toNat / 16 < 16 := by
    have := value.toNat_lt
    omega
  exact { h with clockShift := hs, divisor := Nat.mod_lt _ (by decide) }

theorem InRange.trigger (h : n.InRange) : n.trigger.InRange :=
  { h with
    register := show (0x7FFF : UInt16).toNat < 0x8000 by decide
    timer := h.period_le
    envelope := h.envelope.trigger }

theorem InRange.writeControl (h : n.InRange) (late : Bool) (value : UInt8) :
    (n.writeControl late value).InRange := by
  have hn : InRange { n with gate := n.gate.control maxLength late value } :=
    { h with length := Gate.length_control_le h.length late value }
  unfold Noise.writeControl
  simp only
  split
  · exact hn.trigger
  · exact hn

end Noise

end DotMatrix.Sound
