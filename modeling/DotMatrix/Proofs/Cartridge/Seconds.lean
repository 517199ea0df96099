import DotMatrix.Proofs.Cartridge.Time

/-!
# The seconds of the clock one by one

Time that is taken at once, whether up to a time of day and then in one go or by whole days
and from minute to minute, leaves the counters where single seconds would have led them,
be they a time of day or not.
-/
namespace DotMatrix.Clock

namespace Counters

variable {c : Counters} {n : Nat}

/-! ## From minute to minute -/

/-- Seconds until the minute moves on. Seconds beyond their range first count up to the end
of their bits, and then through a whole minute. -/
def untilMinute (c : Counters) : Nat :=
  if c.seconds ≤ 59 then 60 - c.seconds else 64 - c.seconds + 60

theorem untilMinute_pos (c : Counters) : 0 < c.untilMinute := by
  rw [untilMinute]
  split <;> omega

/-- A number of seconds, from minute to minute. -/
def stride (n : Nat) (c : Counters) : Counters :=
  if n = 0 then c
  else if n < c.untilMinute then { c with seconds := (c.seconds + n) % 64 }
  else stride (n - c.untilMinute) { c with seconds := 0 }.tickMinute
termination_by n
decreasing_by
  have h := c.untilMinute_pos
  omega

/-- A number of seconds, from minute to minute; from a time of day the whole days at once. -/
def leap (n : Nat) (c : Counters) : Counters :=
  if c.showsTime then stride (n % secondsPerDay) (c.skipDays (n / secondsPerDay)) else c.stride n

/-- Within a minute only the seconds move. -/
theorem repeat_tick_of_lt (h : c.Fits) (hn : n < c.untilMinute) :
    Nat.repeat tick n c = { c with seconds := (c.seconds + n) % 64 } := by
  have hs := h.1
  induction n with
  | zero => rw [Nat.repeat, Nat.add_zero, Nat.mod_eq_of_lt hs]
  | succ n ih =>
    have hne : (c.seconds + n) % 64 ≠ 59 := by
      rw [untilMinute] at hn
      split at hn <;> omega
    rw [Nat.repeat, ih (Nat.lt_of_succ_lt hn), tick, if_neg hne, Nat.mod_add_mod, Nat.add_assoc]

/-- The last second of a minute moves the minute on. -/
theorem repeat_tick_untilMinute (h : c.Fits) :
    Nat.repeat tick c.untilMinute c = { c with seconds := 0 }.tickMinute := by
  have hs := h.1
  obtain ⟨n, hn⟩ := Nat.exists_eq_add_one.mpr c.untilMinute_pos
  have hlast : (c.seconds + n) % 64 = 59 := by
    rw [untilMinute] at hn
    split at hn <;> omega
  rw [hn, Nat.repeat, repeat_tick_of_lt h (by omega), tick, if_pos hlast]

theorem stride_eq_repeat_tick (h : c.Fits) (n : Nat) : c.stride n = Nat.repeat tick n c := by
  induction n using Nat.strongRecOn generalizing c with
  | ind n ih =>
    have hpos := c.untilMinute_pos
    rw [stride]
    split
    · rename_i h₀
      rw [h₀, Nat.repeat]
    split
    · rename_i hlt
      exact (repeat_tick_of_lt h hlt).symm
    · rename_i hge
      have hsum : n = c.untilMinute + (n - c.untilMinute) := by omega
      have hfits : ({ c with seconds := 0 } : Counters).tickMinute.Fits :=
        fits_tickMinute ⟨Nat.zero_lt_succ _, h.2⟩
      rw [ih (n - c.untilMinute) (by omega) hfits, ← repeat_tick_untilMinute h, ← repeat_add,
        ← hsum]

/-! ## From a time of day -/

/-- A second from a time of day is a second of the day. -/
theorem tick_of_showsTime (hf : c.Fits) (h : c.showsTime = true) : c.tick = c.advanceTime 1 := by
  obtain ⟨_, _, _, hd⟩ := hf
  simp only [showsTime, Bool.and_eq_true, decide_eq_true_eq] at h
  obtain ⟨⟨hs, hm⟩, hh⟩ := h
  rw [advanceTime_eq, setTimeOfDay, skipDays, timeOfDay, secondsPerDay, tick, tickMinute, tickHour,
    tickDay]
  rcases c with ⟨seconds, minutes, hours, days, halted, carry⟩
  dsimp only at hs hm hh hd ⊢
  split
  · split
    · split
      · split <;> simp <;> omega
      · simp
        omega
    · simp
      omega
  · simp
    omega

theorem advance_succ (hf : c.Fits) (n : Nat) : c.advance (n + 1) = c.tick.advance n := by
  by_cases h : c.showsTime = true
  · rw [Nat.add_comm, advance_add, advance_of_showsTime h Nat.one_ne_zero, ← tick_of_showsTime hf h]
  · rw [advance, if_neg h]

theorem advance_eq_repeat_tick (h : c.Fits) (n : Nat) : c.advance n = Nat.repeat tick n c := by
  induction n generalizing c with
  | zero => rfl
  | succ n ih => rw [advance_succ h, ih (fits_tick h), repeat_succ_inner]

theorem advanceTime_zero (hf : c.Fits) (h : c.showsTime = true) : c.advanceTime 0 = c := by
  obtain ⟨_, _, _, hd⟩ := hf
  simp only [showsTime, Bool.and_eq_true, decide_eq_true_eq] at h
  obtain ⟨⟨hs, hm⟩, hh⟩ := h
  have ht : c.timeOfDay < secondsPerDay := by
    rw [timeOfDay, secondsPerDay]
    omega
  have hover : ¬511 < c.days + 0 := by omega
  have htime : c.timeOfDay % 60 = c.seconds ∧ c.timeOfDay / 60 % 60 = c.minutes ∧
      c.timeOfDay / 3600 = c.hours := by
    rw [timeOfDay]
    omega
  rw [advanceTime_eq, Nat.add_zero, Nat.div_eq_of_lt ht, Nat.mod_eq_of_lt ht, setTimeOfDay,
    skipDays, htime.1, htime.2.1, htime.2.2, decide_eq_false hover, Bool.or_false, Nat.add_zero,
    Nat.mod_eq_of_lt hd]

theorem advance_eq_advanceTime (hf : c.Fits) (h : c.showsTime = true) (n : Nat) :
    c.advance n = c.advanceTime n := by
  by_cases hn : n = 0
  · rw [hn, advanceTime_zero hf h, advance]
  · exact advance_of_showsTime h hn

theorem fits_skipDays (hf : c.Fits) (n : Nat) : (c.skipDays n).Fits :=
  ⟨hf.1, hf.2.1, hf.2.2.1, Nat.mod_lt _ (Nat.zero_lt_succ _)⟩

/-- Whole days may be skipped before the rest of the time is counted. -/
theorem advance_skipDays (hf : c.Fits) (h : c.showsTime = true) (n : Nat) :
    (c.skipDays (n / secondsPerDay)).advance (n % secondsPerDay) = c.advance n := by
  have htime : (c.skipDays (n / secondsPerDay)).timeOfDay = c.timeOfDay := rfl
  have hdays : n / secondsPerDay + (c.timeOfDay + n % secondsPerDay) / secondsPerDay =
      (c.timeOfDay + n) / secondsPerDay := by
    rw [secondsPerDay]
    omega
  rw [advance_eq_advanceTime (fits_skipDays hf _) h, advance_eq_advanceTime hf h, advanceTime_eq,
    advanceTime_eq, htime, ← skipDays_add, hdays, Nat.add_mod_mod]

theorem leap_eq_repeat_tick (h : c.Fits) (n : Nat) : c.leap n = Nat.repeat tick n c := by
  rw [leap]
  split
  · rename_i ht
    have hskip := fits_skipDays h (n / secondsPerDay)
    rw [stride_eq_repeat_tick hskip, ← advance_eq_repeat_tick hskip, advance_skipDays h ht,
      advance_eq_repeat_tick h]
  · exact stride_eq_repeat_tick h n

end Counters

variable {c : Clock}

theorem catchUp_eq (h : c.live.Fits) (hr : c.live.halted = false) (now : Nat) :
    c.catchUp now = { c with
      live := Nat.repeat Counters.tick (min (now - c.anchor) maxCatchUp) c.live
      anchor := now } := by
  have hn : ¬c.live.halted = true := by
    rw [hr]
    exact Bool.false_ne_true
  rw [catchUp, if_neg hn, Counters.advance_eq_repeat_tick h]

/-- Counters that fit their bits go on by single seconds, however many are taken at once. A
clock that runs makes a second of every `clockRate` dots, in whatever portions these come, and
of the wall-clock time since its anchor every second up to a limit, and none if that time has
gone backwards. A halted clock makes none. -/
theorem counts_second_by_second (h : c.live.Fits) :
    (∀ n, c.live.advance n = Nat.repeat Counters.tick n c.live ∧
      c.live.leap n = Nat.repeat Counters.tick n c.live) ∧
    (c.live.halted = false →
      (∀ n, c.advance n = { c with
        dots := (c.dots + n) % clockRate
        live := Nat.repeat Counters.tick ((c.dots + n) / clockRate) c.live }) ∧
      (∀ m n, (c.advance m).advance n = c.advance (m + n)) ∧
      (∀ now, c.anchor < now → c.catchUp now = { c with
        live := Nat.repeat Counters.tick (min (now - c.anchor) 0x40000000) c.live
        anchor := now }) ∧
      ∀ now, now ≤ c.anchor → c.catchUp now = { c with anchor := now }) ∧
    (c.live.halted = true → ∀ n now, c.advance n = c ∧ c.catchUp now = { c with anchor := now }) := by
  refine ⟨fun n => ⟨Counters.advance_eq_repeat_tick h n, Counters.leap_eq_repeat_tick h n⟩, ?_, ?_⟩
  · intro hr
    have hn : ¬c.live.halted = true := by
      rw [hr]
      exact Bool.false_ne_true
    refine ⟨fun n => ?_, fun m n => (advance_add m n c).symm, fun now _ => catchUp_eq h hr now,
      fun now hle => ?_⟩
    · rw [advance_of_running hn, Counters.advance_eq_repeat_tick h]
    · rw [catchUp_eq h hr, Nat.sub_eq_zero_of_le hle, Nat.zero_min, Nat.repeat]
  · intro hh n now
    refine ⟨advance_of_halted hh n, ?_⟩
    rw [catchUp, if_pos hh]

/-- A clock at second 62 of the last minute that its days can count: after two seconds the
seconds start over, and only after another minute do the days run over. -/
theorem counts_second_by_second_overdue :
    let c : Clock := { live := { seconds := 62, minutes := 59, hours := 23, days := 511 } }
    c.live.Fits ∧ c.live.halted = false ∧ 0 < 62 ∧
      (c.advance (2 * clockRate)).live = { c.live with seconds := 0 } ∧
      c.catchUp 62 = { c with live := { carry := true }, anchor := 62 } := by
  have hf : Counters.Fits { seconds := 62, minutes := 59, hours := 23, days := 511 } :=
    ⟨by decide, by decide, by decide, by decide⟩
  obtain ⟨_, hrun, _⟩ := counts_second_by_second (c := {
    live := { seconds := 62, minutes := 59, hours := 23, days := 511 } }) hf
  obtain ⟨hadvance, _, hcatchUp, _⟩ := hrun rfl
  refine ⟨hf, rfl, by decide, ?_, ?_⟩
  · rw [hadvance]
    decide
  · rw [hcatchUp 62 (by decide)]
    decide +kernel

end DotMatrix.Clock
