import DotMatrix.Proofs.Sound.Channels
import DotMatrix.Proofs.Width

/-!
# The channels in words

The channels once more, in arithmetic that may not go beyond its words: lengths and
frequencies in words of 16 bits, timers in words of 32, all else in bytes. A frequency timer
runs as a loop that only ends when the dots are used up, and patterns and samples are looked
up where they lie. Masks, shifts by a fixed number and comparisons cannot go wrong and stay
as they are. Of a channel in range every operation has a result, and it is the channel's own.
-/
namespace DotMatrix.Sound

open Width

/-! ## Countdowns -/

/-- A countdown that stands at `timer`, and what ticks when it has run out. -/
structure Countdown (α : Type) where
  timer : Nat
  ticker : α

namespace Countdown

variable {α : Type}

/-- A countdown over a number of dots. Each time that it has run out it starts again and
something ticks. -/
def run (period : Option Nat) (tick : α → Option α) (dots : Nat) (c : Countdown α) :
    Option (Countdown α) := do
  if c.timer ≤ dots then
    let dots ← minus dots c.timer
    let timer ← period
    let ticker ← tick c.ticker
    Countdown.mk timer ticker |>.run period tick dots
  else
    let timer ← minus c.timer dots
    return { c with timer }
partial_fixpoint

theorem expiries_of_le {period timer dots : Nat} (hp : 0 < period) (h : timer ≤ dots) :
    expiries period timer dots = expiries period period (dots - timer) + 1 := by
  rw [expiries, if_neg (Nat.not_lt_of_le h), expiries]
  split
  · rename_i hlt
    rw [Nat.div_eq_of_lt hlt]
  · rename_i hle
    rw [Nat.div_eq_sub_div hp (Nat.le_of_not_lt hle), Nat.add_assoc]

theorem left_of_le {period timer dots : Nat} (h : timer ≤ dots) :
    left period timer dots = left period period (dots - timer) := by
  rw [left, if_neg (Nat.not_lt_of_le h), left]
  split
  · rename_i hlt
    rw [Nat.mod_eq_of_lt hlt]
  · rename_i hle
    rw [← Nat.mod_eq_sub_mod (Nat.le_of_not_lt hle)]

variable {period timer dots : Nat} {tick? : α → Option α} {tick : α → α} {P : α → Prop} {a : α}

theorem run_of_lt (h : dots < timer) :
    run (some period) tick? dots ⟨timer, a⟩ = some ⟨timer - dots, a⟩ := by
  rw [run, if_neg (Nat.not_le_of_lt h), minus_of_le (Nat.le_of_lt h)]
  rfl

theorem run_of_le (h : timer ≤ dots) (ht : tick? a = some (tick a)) :
    run (some period) tick? dots ⟨timer, a⟩ =
      run (some period) tick? (dots - timer) ⟨period, tick a⟩ := by
  rw [run, if_pos h, minus_of_le h]
  simp only [Option.bind_eq_bind, Option.bind_some, ht]

/-- With a period the loop ends, and what ticks has ticked as often as the timer ran out. -/
theorem run_eq (hp : 0 < period) (htick : ∀ a, P a → tick? a = some (tick a))
    (hP : ∀ a, P a → P (tick a)) (timer dots : Nat) (ha : P a) :
    run (some period) tick? dots ⟨timer, a⟩ =
      some ⟨left period timer dots, Nat.repeat tick (expiries period timer dots) a⟩ := by
  -- A round uses up dots, but for the first one of a timer that stands at zero.
  induction hm : dots + (if timer = 0 then 1 else 0) using Nat.strongRecOn
      generalizing timer dots a with
  | ind m ih =>
    by_cases hlt : dots < timer
    · rw [run_of_lt hlt, left, if_pos hlt, expiries, if_pos hlt, Nat.repeat]
    · have hle := Nat.le_of_not_lt hlt
      have hround : dots - timer + (if period = 0 then 1 else 0) < m := by
        rw [if_neg (Nat.ne_of_gt hp), ← hm]
        split <;> omega
      rw [run_of_le hle (htick a ha), ih _ hround period _ (hP a ha) rfl, left_of_le hle,
        expiries_of_le hp hle, repeat_comm (fun _ => rfl), Nat.repeat]

/-- A place that goes round. -/
theorem repeat_succ_mod {m place : Nat} (h : place < m) (n : Nat) :
    Nat.repeat (fun p => (p + 1) % m) n place = (place + n) % m := by
  induction n with
  | zero => exact (Nat.mod_eq_of_lt h).symm
  | succ n ih => rw [Nat.repeat, ih, Nat.mod_add_mod, Nat.add_assoc]

end Countdown

/-! ## Gates and envelopes -/

namespace Gate

def clockInWords (g : Gate) : Option Gate := do
  if g.lengthEnabled ∧ 0 < g.length then
    let length ← minus g.length 1
    return { g with length, on := if length = 0 then false else g.on }
  else return g

/-- A length of `full` clocks less those that are written. -/
def setLengthInWords (g : Gate) (full clocks : Nat) : Option Gate := do
  let length ← minus full clocks
  return { g with length }

/-- The length after a trigger that finds none left. -/
def reloadInWords (full : Nat) (late : Bool) : Option Nat :=
  if late then minus full 1 else some full

def controlInWords (g : Gate) (full : Nat) (late : Bool) (value : UInt8) : Option Gate := do
  let enable := hasBit value 0x40
  let extra := !g.lengthEnabled && enable && late
  let g ← only extra clockInWords { g with lengthEnabled := enable }
  if hasBit value 0x80 && g.length == 0 then
    let length ← reloadInWords full (enable && late)
    return { g with length }
  else return g

theorem clockInWords_eq (g : Gate) : g.clockInWords = some g.clock := by
  rw [clockInWords, clock]
  split
  · rename_i h
    rw [minus_of_le h.2, Option.bind_eq_bind, Option.bind_some]
    have hon : (if g.length - 1 = 0 then false else g.on) = (g.on && g.length != 1) := by
      by_cases hl : g.length = 1
      · simp [hl]
      · rw [if_neg (by omega), bne_iff_ne.mpr hl, Bool.and_true]
    rw [hon]
    rfl
  · rfl

theorem setLengthInWords_eq (g : Gate) {full clocks : Nat} (h : clocks ≤ full) :
    g.setLengthInWords full clocks = some { g with length := full - clocks } := by
  rw [setLengthInWords, minus_of_le h]
  rfl

theorem reloadInWords_eq {full : Nat} (h : 1 ≤ full) (late : Bool) :
    reloadInWords full late = some (if late then full - 1 else full) := by
  rw [reloadInWords, minus_of_le h]
  split <;> rfl

theorem controlInWords_eq (g : Gate) {full : Nat} (h : 1 ≤ full) (late : Bool) (value : UInt8) :
    g.controlInWords full late value = some (g.control full late value) := by
  rw [controlInWords, control, only_eq fun _ => clockInWords_eq _, reloadInWords_eq h]
  simp only [Option.bind_eq_bind, Option.bind_some]
  exact (apply_ite some _ _ _).symm

end Gate

namespace Envelope

def stepInWords (e : Envelope) : Option Envelope := do
  if e.rising && e.volume < maxVolume then
    let volume ← word 8 (e.volume + 1)
    return { e with volume }
  else if !e.rising && 0 < e.volume then
    let volume ← minus e.volume 1
    return { e with volume }
  else return e

def clockInWords (e : Envelope) : Option Envelope := do
  if e.period = 0 then return e
  else
    let timer ← countDown e.timer
    only (timer = 0) (fun e => stepInWords { e with timer := e.period }) { e with timer }

theorem stepInWords_eq (e : Envelope) : e.stepInWords = some e.step := by
  have hmax : maxVolume = 15 := rfl
  rcases e with ⟨initial, period, rising, volume, timer⟩
  cases rising with
  | true =>
    by_cases h : volume < maxVolume
    · simp [stepInWords, step, h, word_of_lt (show volume + 1 < 2 ^ 8 by omega)]
    · simp [stepInWords, step, h]
  | false =>
    by_cases h : 0 < volume
    · simp [stepInWords, step, h, minus_of_le (show 1 ≤ volume from h)]
    · simp [stepInWords, step, Nat.eq_zero_of_not_pos h]

theorem clockInWords_eq (e : Envelope) : e.clockInWords = some e.clock := by
  rw [clockInWords, clock, countDown_eq]
  split
  · rfl
  rw [Option.bind_eq_bind, Option.bind_some]
  refine (only_eq (g := fun e => step { e with timer := e.period }) ?_).trans ?_
  · exact fun _ => stepInWords_eq _
  by_cases ht : 1 < e.timer
  · rw [if_pos ht, decide_eq_false (by omega)]
    rfl
  · rw [if_neg ht, decide_eq_true (by omega)]
    rfl

end Envelope

/-! ## Square channels -/

/-- The period of a frequency: so many dots for each step that it is short of 2048. -/
def periodInWords (dots frequency : Nat) : Option Nat := do
  let rest ← minus 2048 frequency
  word 32 (rest * dots)

theorem periodInWords_eq {dots frequency : Nat} (hd : dots ≤ 4) (h : frequency < 2048) :
    periodInWords dots frequency = some ((2048 - frequency) * dots) := by
  have hm : (2048 - frequency) * dots ≤ 2048 * 4 := Nat.mul_le_mul (Nat.sub_le _ _) hd
  rw [periodInWords, minus_of_le (Nat.le_of_lt h), Option.bind_eq_bind, Option.bind_some,
    word_of_lt (by omega)]

theorem period_pos {dots frequency : Nat} (hd : 0 < dots) (h : frequency < 2048) :
    0 < (2048 - frequency) * dots :=
  Nat.mul_pos (Nat.sub_pos_of_lt h) hd

namespace Square

def dutyPatterns : List (List Nat) := [
  [0, 0, 0, 0, 0, 0, 0, 1],
  [1, 0, 0, 0, 0, 0, 0, 1],
  [1, 0, 0, 0, 0, 1, 1, 1],
  [0, 1, 1, 1, 1, 1, 1, 0]]

def advanceInWords (dots : Nat) (s : Square) : Option Square := do
  if s.gate.on then
    let c ← Countdown.run (periodInWords 4 s.frequency)
      (fun p => do return (← word 8 (p + 1)) % 8) dots ⟨s.timer, s.position⟩
    return { s with timer := c.timer, position := c.ticker }
  else return s

def outputInWords (s : Square) : Option Nat := do
  if s.gate.on then
    let pattern ← dutyPatterns[s.duty]?
    let high ← pattern[s.position]?
    word 8 (high * s.envelope.volume)
  else return 0

def clockLengthInWords (s : Square) : Option Square := do
  return { s with gate := ← s.gate.clockInWords }

def clockEnvelopeInWords (s : Square) : Option Square := do
  return { s with envelope := ← s.envelope.clockInWords }

def writeLengthInWords (s : Square) (value : UInt8) : Option Square := do
  return { s with gate := ← s.gate.setLengthInWords maxLength (value.toNat % 64) }

def writeDutyInWords (s : Square) (value : UInt8) : Option Square := do
  let s ← s.writeLengthInWords value
  return { s with duty := value.toNat / 64 }

def triggerInWords (s : Square) : Option Square := do
  let timer ← periodInWords 4 s.frequency
  return { s with gate := s.gate.trigger, timer, envelope := s.envelope.trigger }

def writeControlInWords (s : Square) (late : Bool) (value : UInt8) : Option Square := do
  let gate ← s.gate.controlInWords maxLength late value
  only (hasBit value 0x80) triggerInWords { s with frequency := setHigh s.frequency value, gate }

variable {s : Square}

theorem dutyPatterns_eq {duty position : Nat} (hd : duty < 4) (hp : position < 8) :
    (dutyPatterns[duty]?.bind fun pattern => pattern[position]?) =
      some (if dutyHigh duty position then 1 else 0) := by
  have hall : ∀ d < 4, ∀ p < 8, (dutyPatterns[d]?.bind fun pattern => pattern[p]?) =
      some (if dutyHigh d p then 1 else 0) := by decide
  exact hall duty hd position hp

theorem advanceInWords_eq (h : s.InRange) (dots : Nat) :
    s.advanceInWords dots = some (s.advance dots) := by
  have htick (p : Nat) (hp : p < 8) : (do return (← word 8 (p + 1)) % 8) = some ((p + 1) % 8) := by
    rw [word_of_lt (by omega)]
    rfl
  rw [advanceInWords, advance, periodInWords_eq (by decide) h.frequency]
  split
  · rw [Countdown.run_eq (period_pos (by decide) h.frequency) htick
      (fun _ _ => Nat.mod_lt _ (by decide)) _ _ h.position, Countdown.repeat_succ_mod h.position]
    rfl
  · rfl

theorem outputInWords_eq (h : s.InRange) : s.outputInWords = some s.output := by
  have hv := h.envelope.volume
  have hpattern := dutyPatterns_eq h.duty h.position
  obtain ⟨pattern, hd, hp⟩ := Option.bind_eq_some_iff.mp hpattern
  rw [outputInWords, output, hd, Option.bind_eq_bind, Option.bind_some, hp]
  cases s.gate.on with
  | false => rfl
  | true => cases dutyHigh s.duty s.position with
    | false =>
      change word 8 (0 * s.envelope.volume) = _
      rw [Nat.zero_mul, word_of_lt (by decide)]
      rfl
    | true =>
      change word 8 (1 * s.envelope.volume) = _
      rw [Nat.one_mul, word_of_lt (by omega)]
      rfl

theorem clockLengthInWords_eq (s : Square) : s.clockLengthInWords = some s.clockLength := by
  rw [clockLengthInWords, Gate.clockInWords_eq]
  rfl

theorem clockEnvelopeInWords_eq (s : Square) : s.clockEnvelopeInWords = some s.clockEnvelope := by
  rw [clockEnvelopeInWords, Envelope.clockInWords_eq]
  rfl

theorem writeLengthInWords_eq (s : Square) (value : UInt8) :
    s.writeLengthInWords value = some (s.writeLength value) := by
  rw [writeLengthInWords, Gate.setLengthInWords_eq]
  · rfl
  · exact Nat.le_of_lt (Nat.mod_lt _ (by decide))

theorem writeDutyInWords_eq (s : Square) (value : UInt8) :
    s.writeDutyInWords value = some (s.writeDuty value) := by
  rw [writeDutyInWords, writeLengthInWords_eq]
  rfl

theorem triggerInWords_eq (h : s.frequency < 2048) : s.triggerInWords = some s.trigger := by
  rw [triggerInWords, periodInWords_eq (by decide) h]
  rfl

theorem writeControlInWords_eq (s : Square) (late : Bool) (value : UInt8) :
    s.writeControlInWords late value = some (s.writeControl late value) := by
  rw [writeControlInWords, Gate.controlInWords_eq _ (by decide), Option.bind_eq_bind,
    Option.bind_some, only_eq fun _ => triggerInWords_eq (setHigh_lt _ _)]
  rfl

end Square

/-! ## The sweep -/

/-- The frequency of the next step. A falling step leaves a mark. -/
def Sweep.targetInWords (w : Sweep) : Option (Nat × Sweep) := do
  let delta ← shiftedRight 16 w.shadow w.shift
  if w.falling then return (← minus w.shadow delta, { w with fell := true })
  else return (← word 16 (w.shadow + delta), w)

theorem Sweep.targetInWords_eq {w : Sweep} (h : w.InRange) :
    w.targetInWords = some (w.target, w.mark) := by
  have hs := h.shift
  have hshadow := h.shadow
  have hdelta : w.shadow >>> w.shift ≤ w.shadow := by
    rw [Nat.shiftRight_eq_div_pow]
    exact Nat.div_le_self _ _
  rw [targetInWords, shiftedRight_of_lt (by omega), Option.bind_eq_bind, Option.bind_some,
    minus_of_le hdelta, word_of_lt (by omega), target, mark]
  rcases w with ⟨period, falling, shift, timer, shadow, on, fell⟩
  cases falling with
  | true =>
    dsimp only
    rw [Bool.or_true]
    rfl
  | false =>
    dsimp only
    rw [Bool.or_false]
    rfl

namespace Swept

/-- The channel falls silent if the frequency is too high. -/
def limit (frequency : Nat) (c : Swept) : Swept :=
  if maxFrequency < frequency then
    { c with square := { c.square with gate := { c.square.gate with on := false } } }
  else c

def checkInWords (c : Swept) : Option Swept := do
  let (frequency, sweep) ← c.sweep.targetInWords
  return limit frequency { c with sweep }

def stepInWords (c : Swept) : Option Swept := do
  let (frequency, sweep) ← c.sweep.targetInWords
  if maxFrequency < frequency then return limit frequency { c with sweep }
  else if sweep.shift ≠ 0 then
    checkInWords {
      square := { c.square with frequency }
      sweep := { sweep with shadow := frequency } }
  else return { c with sweep }

def clockSweepInWords (c : Swept) : Option Swept := do
  let timer ← countDown c.sweep.timer
  if timer ≠ 0 then return { c with sweep := { c.sweep with timer } }
  else
    let c := { c with sweep := c.sweep.reload }
    only (c.sweep.on && c.sweep.period != 0) stepInWords c

def triggerSweepInWords (c : Swept) : Option Swept :=
  let sweep := { c.sweep with
    shadow := c.square.frequency
    fell := false
    on := c.sweep.period != 0 || c.sweep.shift != 0 }.reload
  only (c.sweep.shift ≠ 0) checkInWords { c with sweep }

def writeControlInWords (c : Swept) (late : Bool) (value : UInt8) : Option Swept := do
  let square ← c.square.writeControlInWords late value
  only (hasBit value 0x80) triggerSweepInWords { c with square }

def mapSquareInWords (f : Square → Option Square) (c : Swept) : Option Swept := do
  return { c with square := ← f c.square }

variable {c : Swept}

theorem limit_eq (c : Swept) : limit c.sweep.target { c with sweep := c.sweep.mark } = c.check := by
  rw [limit, check]
  split
  · rename_i h
    rw [decide_eq_false (Nat.not_le_of_lt h), Bool.and_false]
  · rename_i h
    rw [decide_eq_true (Nat.le_of_not_lt h), Bool.and_true]

theorem checkInWords_eq (h : c.sweep.InRange) : c.checkInWords = some c.check := by
  rw [checkInWords, Sweep.targetInWords_eq h, ← limit_eq]
  rfl

theorem check_of_le (h : c.sweep.target ≤ maxFrequency) :
    c.check = { c with sweep := c.sweep.mark } := by
  rw [← limit_eq, limit, if_neg (Nat.not_lt_of_le h)]

theorem stepInWords_eq (h : c.InRange) : c.stepInWords = some c.step := by
  rw [stepInWords, Sweep.targetInWords_eq h.sweep, Option.bind_eq_bind, Option.bind_some, step]
  dsimp only
  have hshift : c.sweep.mark.shift = c.sweep.shift := rfl
  by_cases hf : c.sweep.target ≤ maxFrequency
  · rw [if_neg (Nat.not_lt_of_le hf), check_of_le hf, hshift]
    by_cases hs : c.sweep.shift ≠ 0
    · have hshadow : c.sweep.target < 0x1000 := Nat.lt_of_le_of_lt hf (by decide)
      rw [if_pos hs, if_pos ⟨hf, hs⟩, checkInWords_eq]
      exact ⟨h.sweep.period, h.sweep.shift, h.sweep.timer, hshadow⟩
    · rw [if_neg hs, if_neg fun h => hs h.2]
      rfl
  · rw [if_pos (Nat.lt_of_not_le hf), if_neg fun h => hf h.1, limit_eq]
    rfl

theorem clockSweepInWords_eq (h : c.InRange) : c.clockSweepInWords = some c.clockSweep := by
  have hr : InRange { c with sweep := c.sweep.reload } := ⟨h.square, h.sweep.reload⟩
  rw [clockSweepInWords, countDown_eq, clockSweep, Option.bind_eq_bind, Option.bind_some]
  by_cases ht : 1 < c.sweep.timer
  · rw [if_pos ht, if_pos (by omega)]
    rfl
  · rw [if_neg ht, if_neg (by omega)]
    dsimp only
    rw [only_eq fun _ => stepInWords_eq hr]

theorem triggerSweepInWords_eq (h : c.InRange) :
    c.triggerSweepInWords = some c.triggerSweep := by
  have hr : Sweep.InRange { c.sweep with
      shadow := c.square.frequency, fell := false
      on := c.sweep.period != 0 || c.sweep.shift != 0 }.reload := by
    refine Sweep.InRange.reload ?_
    exact { h.sweep with shadow := Nat.lt_trans h.square.frequency (by decide) }
  rw [triggerSweepInWords, only_eq fun _ => checkInWords_eq hr, triggerSweep]
  simp only [decide_eq_true_eq]
  rfl

theorem writeControlInWords_eq (h : c.InRange) (late : Bool) (value : UInt8) :
    c.writeControlInWords late value = some (c.writeControl late value) := by
  have hs : InRange { c with square := c.square.writeControl late value } :=
    ⟨h.square.writeControl late value, h.sweep⟩
  rw [writeControlInWords, Square.writeControlInWords_eq, Option.bind_eq_bind, Option.bind_some,
    only_eq fun _ => triggerSweepInWords_eq hs]
  rfl

theorem mapSquareInWords_eq {f? : Square → Option Square} {f : Square → Square}
    (h : f? c.square = some (f c.square)) : c.mapSquareInWords f? = some (c.mapSquare f) := by
  rw [mapSquareInWords, h]
  rfl

end Swept

/-! ## The wave channel -/

namespace Wave

def tickInWords (ram : Memory 16) (sample : Nat × Nat) : Option (Nat × Nat) := do
  let position ← word 8 (sample.1 + 1)
  let position := position % sampleCount
  let b ← byteAt ram (position / 2)
  return (position, if position % 2 = 0 then b.toNat / 16 else b.toNat % 16)

def advanceInWords (ram : Memory 16) (dots : Nat) (w : Wave) : Option Wave := do
  if w.gate.on then
    let c ← Countdown.run (periodInWords 2 w.frequency) (tickInWords ram) dots
      ⟨w.timer, (w.position, w.buffer)⟩
    return { w with timer := c.timer, position := c.ticker.1, buffer := c.ticker.2 }
  else return w

def clockLengthInWords (w : Wave) : Option Wave := do
  return { w with gate := ← w.gate.clockInWords }

def writeLengthInWords (w : Wave) (value : UInt8) : Option Wave := do
  return { w with gate := ← w.gate.setLengthInWords maxLength value.toNat }

def triggerInWords (w : Wave) : Option Wave := do
  let period ← periodInWords 2 w.frequency
  let timer ← word 32 (period + triggerDelay)
  return { w with gate := w.gate.trigger, position := 0, timer }

def writeControlInWords (w : Wave) (late : Bool) (value : UInt8) : Option Wave := do
  let gate ← w.gate.controlInWords maxLength late value
  only (hasBit value 0x80) triggerInWords { w with frequency := setHigh w.frequency value, gate }

variable {w : Wave}

def tick (ram : Memory 16) (sample : Nat × Nat) : Nat × Nat :=
  ((sample.1 + 1) % sampleCount, sampleAt ram ((sample.1 + 1) % sampleCount))

theorem tickInWords_eq (ram : Memory 16) {sample : Nat × Nat} (h : sample.1 < sampleCount) :
    tickInWords ram sample = some (tick ram sample) := by
  have hcount : sampleCount = 32 := rfl
  have hmod : (sample.1 + 1) % sampleCount < 32 := Nat.mod_lt _ (by decide)
  rw [tickInWords, word_of_lt (by omega), Option.bind_eq_bind, Option.bind_some]
  dsimp only
  rw [byteAt_of_lt ram (by omega)]
  rfl

/-- Only the last of the samples that are passed is kept. -/
theorem repeat_tick (ram : Memory 16) {position : Nat} (h : position < sampleCount)
    (buffer n : Nat) : Nat.repeat (tick ram) n (position, buffer) =
      ((position + n) % sampleCount,
        if n = 0 then buffer else sampleAt ram ((position + n) % sampleCount)) := by
  have hplace (n : Nat) : (Nat.repeat (tick ram) n (position, buffer)).1 =
      (position + n) % sampleCount := by
    induction n with
    | zero => exact (Nat.mod_eq_of_lt h).symm
    | succ n ih => rw [Nat.repeat, tick, ih, Nat.mod_add_mod, Nat.add_assoc]
  cases n with
  | zero => exact Prod.ext (hplace 0) rfl
  | succ n =>
    refine Prod.ext (hplace (n + 1)) ?_
    rw [Nat.repeat, tick, hplace n, Nat.mod_add_mod, Nat.add_assoc]
    rfl

theorem advanceInWords_eq (h : w.InRange) (ram : Memory 16) (dots : Nat) :
    w.advanceInWords ram dots = some (w.advance ram dots) := by
  have hp : w.position < sampleCount := h.position
  rw [advanceInWords, advance, periodInWords_eq (by decide) h.frequency]
  split
  · rw [Countdown.run_eq (P := fun p => p.1 < sampleCount) (period_pos (by decide) h.frequency)
      (fun _ => tickInWords_eq ram) (fun _ _ => Nat.mod_lt _ (by decide)) _ _ hp,
      repeat_tick ram hp]
    rfl
  · rfl

theorem clockLengthInWords_eq (w : Wave) : w.clockLengthInWords = some w.clockLength := by
  rw [clockLengthInWords, Gate.clockInWords_eq]
  rfl

theorem writeLengthInWords_eq (w : Wave) (value : UInt8) :
    w.writeLengthInWords value = some (w.writeLength value) := by
  rw [writeLengthInWords, Gate.setLengthInWords_eq]
  · rfl
  · exact Nat.le_of_lt value.toNat_lt

theorem triggerInWords_eq (h : w.frequency < 2048) : w.triggerInWords = some w.trigger := by
  have hp := period_le w
  have hdelay : triggerDelay = 6 := rfl
  rw [period] at hp
  rw [triggerInWords, periodInWords_eq (by decide) h, Option.bind_eq_bind, Option.bind_some,
    word_of_lt (by omega)]
  rfl

theorem writeControlInWords_eq (w : Wave) (late : Bool) (value : UInt8) :
    w.writeControlInWords late value = some (w.writeControl late value) := by
  rw [writeControlInWords, Gate.controlInWords_eq _ (by decide), Option.bind_eq_bind,
    Option.bind_some, only_eq fun _ => triggerInWords_eq (setHigh_lt _ _)]
  rfl

end Wave

/-! ## The noise channel -/

namespace Noise

def noisePeriodInWords (n : Noise) : Option Nat := do
  let base ← if n.divisor = 0 then some 8 else word 32 (n.divisor * 16)
  shiftedLeft 32 base n.clockShift

def advanceInWords (dots : Nat) (n : Noise) : Option Noise := do
  if n.gate.on then
    let c ← Countdown.run n.noisePeriodInWords (fun r => some (shift n.short r)) dots
      ⟨n.timer, n.register⟩
    return { n with timer := c.timer, register := c.ticker }
  else return n

def clockLengthInWords (n : Noise) : Option Noise := do
  return { n with gate := ← n.gate.clockInWords }

def clockEnvelopeInWords (n : Noise) : Option Noise := do
  return { n with envelope := ← n.envelope.clockInWords }

def writeLengthInWords (n : Noise) (value : UInt8) : Option Noise := do
  return { n with gate := ← n.gate.setLengthInWords maxLength (value.toNat % 64) }

def triggerInWords (n : Noise) : Option Noise := do
  let timer ← n.noisePeriodInWords
  return { n with
    gate := n.gate.trigger
    register := 0x7FFF
    timer
    envelope := n.envelope.trigger }

def writeControlInWords (n : Noise) (late : Bool) (value : UInt8) : Option Noise := do
  let gate ← n.gate.controlInWords maxLength late value
  only (hasBit value 0x80) triggerInWords { n with gate }

variable {n : Noise}

theorem noisePeriodInWords_eq (h : n.InRange) : n.noisePeriodInWords = some n.period := by
  have hp := h.period_le
  have hd := h.divisor
  have hs := h.clockShift
  have hmax : maxTimer < 2 ^ 32 := by decide
  rw [period] at hp
  rw [noisePeriodInWords, word_of_lt (by omega), period, Nat.mul_comm n.divisor]
  split
  · rename_i hz
    rw [if_pos hz] at hp
    exact shiftedLeft_of_lt (by omega) (Nat.lt_of_le_of_lt hp hmax)
  · rename_i hz
    rw [if_neg hz] at hp
    exact shiftedLeft_of_lt (by omega) (Nat.lt_of_le_of_lt hp hmax)

theorem period_pos (n : Noise) : 0 < n.period := by
  rw [period, Nat.shiftLeft_eq]
  refine Nat.mul_pos ?_ (Nat.two_pow_pos _)
  split <;> omega

theorem advanceInWords_eq (h : n.InRange) (dots : Nat) :
    n.advanceInWords dots = some (n.advance dots) := by
  rw [advanceInWords, advance, noisePeriodInWords_eq h]
  split
  · rw [Countdown.run_eq (P := fun _ => True) n.period_pos (fun _ _ => rfl) (fun _ _ => trivial)
      _ _ trivial]
    rfl
  · rfl

theorem clockLengthInWords_eq (n : Noise) : n.clockLengthInWords = some n.clockLength := by
  rw [clockLengthInWords, Gate.clockInWords_eq]
  rfl

theorem clockEnvelopeInWords_eq (n : Noise) : n.clockEnvelopeInWords = some n.clockEnvelope := by
  rw [clockEnvelopeInWords, Envelope.clockInWords_eq]
  rfl

theorem writeLengthInWords_eq (n : Noise) (value : UInt8) :
    n.writeLengthInWords value = some (n.writeLength value) := by
  rw [writeLengthInWords, Gate.setLengthInWords_eq]
  · rfl
  · exact Nat.le_of_lt (Nat.mod_lt _ (by decide))

theorem triggerInWords_eq (h : n.InRange) : n.triggerInWords = some n.trigger := by
  rw [triggerInWords, noisePeriodInWords_eq h]
  rfl

theorem writeControlInWords_eq (h : n.InRange) (late : Bool) (value : UInt8) :
    n.writeControlInWords late value = some (n.writeControl late value) := by
  have hn : InRange { n with gate := n.gate.control maxLength late value } :=
    { h with length := Gate.length_control_le h.length late value }
  rw [writeControlInWords, Gate.controlInWords_eq _ (by decide), Option.bind_eq_bind,
    Option.bind_some, only_eq fun _ => triggerInWords_eq hn]
  rfl

end Noise

end DotMatrix.Sound
