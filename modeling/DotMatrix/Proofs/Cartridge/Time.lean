import DotMatrix.Proofs.Cartridge.Slot

/-!
# The cartridge as time passes

Time moves the live counters of the clock alone, which no read sees before they are
latched, and it may come in portions.
-/
namespace DotMatrix

namespace Clock

namespace Counters

variable {c : Counters}

def timeOfDay (c : Counters) : Nat := c.seconds + 60 * (c.minutes + 60 * c.hours)

def setTimeOfDay (time : Nat) (c : Counters) : Counters :=
  { c with seconds := time % 60, minutes := time / 60 % 60, hours := time / 3600 }

def skipDays (n : Nat) (c : Counters) : Counters :=
  { c with days := (c.days + n) % 512, carry := c.carry || 511 < c.days + n }

theorem advanceTime_eq (n : Nat) (c : Counters) : c.advanceTime n =
    (c.skipDays ((c.timeOfDay + n) / secondsPerDay)).setTimeOfDay
      ((c.timeOfDay + n) % secondsPerDay) := rfl

theorem timeOfDay_setTimeOfDay (time : Nat) (c : Counters) :
    (c.setTimeOfDay time).timeOfDay = time := by
  change time % 60 + 60 * (time / 60 % 60 + 60 * (time / 3600)) = time
  omega

theorem timeOfDay_advanceTime (n : Nat) (c : Counters) :
    (c.advanceTime n).timeOfDay = (c.timeOfDay + n) % secondsPerDay :=
  timeOfDay_setTimeOfDay _ (c.skipDays _)

theorem showsTime_advanceTime (n : Nat) (c : Counters) : (c.advanceTime n).showsTime = true := by
  have hlt : (c.timeOfDay + n) % secondsPerDay < 86400 := Nat.mod_lt _ (by decide)
  change (decide ((c.timeOfDay + n) % secondsPerDay % 60 ≤ 59) &&
    decide ((c.timeOfDay + n) % secondsPerDay / 60 % 60 ≤ 59) &&
    decide ((c.timeOfDay + n) % secondsPerDay / 3600 ≤ 23)) = true
  simp only [Bool.and_eq_true, decide_eq_true_eq]
  omega

/-- The days run over in one of two portions if they do so in both together. -/
theorem skipDays_add (m n : Nat) (c : Counters) :
    c.skipDays (m + n) = (c.skipDays m).skipDays n := by
  have hdays : (c.days + (m + n)) % 512 = ((c.days + m) % 512 + n) % 512 := by omega
  have hcarry : 511 < c.days + (m + n) ↔ 511 < c.days + m ∨ 511 < (c.days + m) % 512 + n := by
    omega
  change ({ c with
    days := (c.days + (m + n)) % 512
    carry := c.carry || decide (511 < c.days + (m + n)) } : Counters) = { c with
    days := ((c.days + m) % 512 + n) % 512
    carry := c.carry || decide (511 < c.days + m) || decide (511 < (c.days + m) % 512 + n) }
  rw [hdays, decide_eq_decide.mpr hcarry, Bool.decide_or, Bool.or_assoc]

/-- The two portions of a stretch of time end on the same day and second as the whole. -/
theorem advanceTime_add (m n : Nat) (c : Counters) :
    c.advanceTime (m + n) = (c.advanceTime m).advanceTime n := by
  have htime : ((c.timeOfDay + m) % secondsPerDay + n) % secondsPerDay =
      (c.timeOfDay + (m + n)) % secondsPerDay := by
    rw [Nat.mod_add_mod, Nat.add_assoc]
  have hdays : (c.timeOfDay + m) / secondsPerDay +
      ((c.timeOfDay + m) % secondsPerDay + n) / secondsPerDay =
        (c.timeOfDay + (m + n)) / secondsPerDay := by
    rw [secondsPerDay]
    omega
  have hsplit : (c.advanceTime m).advanceTime n =
      ((c.skipDays ((c.timeOfDay + m) / secondsPerDay)).skipDays
        (((c.timeOfDay + m) % secondsPerDay + n) / secondsPerDay)).setTimeOfDay
          (((c.timeOfDay + m) % secondsPerDay + n) % secondsPerDay) := by
    rw [advanceTime_eq n, timeOfDay_advanceTime]
    rfl
  rw [hsplit, ← skipDays_add, htime, hdays, advanceTime_eq]

theorem advance_of_showsTime (h : c.showsTime = true) {n : Nat} (hn : n ≠ 0) :
    c.advance n = c.advanceTime n := by
  obtain ⟨n, rfl⟩ := Nat.exists_eq_succ_of_ne_zero hn
  exact if_pos h

theorem advance_add (m n : Nat) (c : Counters) : c.advance (m + n) = (c.advance m).advance n := by
  induction m generalizing c with
  | zero => rw [Nat.zero_add, advance]
  | succ m ih =>
    by_cases hn : n = 0
    · rw [hn]
      rfl
    by_cases h : c.showsTime = true
    · rw [advance_of_showsTime h (by omega), advance_of_showsTime h (by omega),
        advance_of_showsTime (showsTime_advanceTime _ _) hn, advanceTime_add]
    · rw [Nat.succ_add, advance, if_neg h, advance, if_neg h, ih]

theorem halted_tick (c : Counters) : c.tick.halted = c.halted := by
  rw [tick, tickMinute, tickHour, tickDay]
  split
  · split
    · split
      · split <;> rfl
      · rfl
    · rfl
  · rfl

theorem halted_advance (n : Nat) (c : Counters) : (c.advance n).halted = c.halted := by
  induction n generalizing c with
  | zero => rfl
  | succ n ih =>
    rw [advance]
    split
    · rfl
    · rw [ih, halted_tick]

end Counters

variable {c : Clock}

theorem advance_of_halted (h : c.live.halted = true) (dots : Nat) : c.advance dots = c := if_pos h

theorem advance_of_running (h : ¬c.live.halted = true) (dots : Nat) : c.advance dots =
    { c with
      dots := (c.dots + dots) % clockRate
      live := c.live.advance ((c.dots + dots) / clockRate) } := if_neg h

/-- Time in two portions is time at once, down to the dot. -/
theorem advance_add (m n : Nat) (c : Clock) : c.advance (m + n) = (c.advance m).advance n := by
  by_cases h : c.live.halted = true
  · rw [advance_of_halted h, advance_of_halted h, advance_of_halted h]
  · have h' : ¬(c.advance m).live.halted = true := by
      rw [advance_of_running h]
      exact fun hh => h ((Counters.halted_advance _ _).symm.trans hh)
    have hdots : ((c.dots + m) % clockRate + n) % clockRate = (c.dots + (m + n)) % clockRate := by
      rw [Nat.mod_add_mod, Nat.add_assoc]
    have hseconds : (c.dots + m) / clockRate + ((c.dots + m) % clockRate + n) / clockRate =
        (c.dots + (m + n)) / clockRate := by
      rw [clockRate]
      omega
    rw [advance_of_running h', advance_of_running h, advance_of_running h]
    simp only
    rw [hdots, ← hseconds, Counters.advance_add]

theorem advance_zero (h : c.dots < clockRate) : c.advance 0 = c := by
  rw [advance]
  split
  · rfl
  · simp only [Nat.add_zero, Nat.mod_eq_of_lt h, Nat.div_eq_of_lt h, Counters.advance]

theorem latched_advance (n : Nat) (c : Clock) : (c.advance n).latched = c.latched := by
  rw [advance]
  split <;> rfl

end Clock

namespace Controller

theorem lowBank_mapClock (f : Clock → Clock) (c : Controller) :
    (c.mapClock f).lowBank = c.lowBank := by
  cases c <;> rfl

theorem highBank_mapClock (f : Clock → Clock) (c : Controller) :
    (c.mapClock f).highBank = c.highBank := by
  cases c <;> rfl

theorem window_mapClock (f : Clock → Clock) (c : Controller) :
    (c.mapClock f).window = c.window := by
  cases c <;> rfl

theorem clock?_mapClock (f : Clock → Clock) (c : Controller) :
    (c.mapClock f).clock? = c.clock?.map f := by
  cases c <;> rfl

theorem mapClock_mapClock (f g : Clock → Clock) (c : Controller) :
    (c.mapClock f).mapClock g = c.mapClock (g ∘ f) := by
  cases c with
  | mbc3 r => simp only [mapClock, Option.map_map]
  | _ => rfl

theorem mapClock_eq_self {f : Clock → Clock} {c : Controller} (h : ∀ k ∈ c.clock?, f k = k) :
    c.mapClock f = c := by
  cases c with
  | mbc3 r =>
    have hr : r.clock?.map f = r.clock? := by
      cases hk : r.clock? with
      | none => rfl
      | some k => exact congrArg some (h k hk)
    rw [mapClock, hr]
  | _ => rfl

theorem InRange.clock {c : Controller} (h : c.InRange) : ∀ k ∈ c.clock?, k.InRange := by
  cases c with
  | mbc3 r => exact Mbc3.InRange.clock h
  | _ => exact nofun

end Controller

namespace Slot

theorem advance_eq (dots : Nat) (s : Slot) :
    s.advance dots = { s with controller := s.controller.mapClock (·.advance dots) } := by
  rw [advance]
  split
  · rfl
  · rename_i h
    rw [Controller.mapClock_eq_self]
    intro k hk
    rw [h] at hk
    cases hk

theorem advance_add (m n : Nat) (s : Slot) : s.advance (m + n) = (s.advance m).advance n := by
  have hf : (fun c : Clock => c.advance (m + n)) = (·.advance n) ∘ (·.advance m) :=
    funext fun c => c.advance_add m n
  rw [advance_eq, advance_eq n, advance_eq m, Controller.mapClock_mapClock, hf]

theorem advance_zero {s : Slot} (h : s.InRange) : s.advance 0 = s := by
  rw [advance_eq, Controller.mapClock_eq_self]
  exact fun k hk => Clock.advance_zero (Controller.InRange.clock h k hk).dots

theorem readRom_advance (dots : Nat) (s : Slot) : (s.advance dots).readRom = s.readRom := by
  funext address
  rw [advance_eq, readRom, readRom, lowBank, lowBank, highBank, highBank]
  simp only [Controller.lowBank_mapClock, Controller.highBank_mapClock]
  rfl

/-- The clock shows what was latched. -/
theorem readRam_advance (dots : Nat) (s : Slot) : (s.advance dots).readRam = s.readRam := by
  funext address
  rw [advance_eq, readRam, readRam]
  simp only [Controller.window_mapClock, Controller.clock?_mapClock]
  split
  · rfl
  · rfl
  · rfl
  · cases s.controller.clock? with
    | none => rfl
    | some clock =>
      change (clock.advance dots).latched.read _ = _
      rw [Clock.latched_advance]
      rfl

end Slot

end DotMatrix
