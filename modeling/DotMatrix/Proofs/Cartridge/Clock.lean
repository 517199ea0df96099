import DotMatrix.Cartridge.Clock
import DotMatrix.Proofs.Snapshot.Layout

/-!
# The cartridge clock in a snapshot

However the time passes or is set, each counter fits its bits, and so a stored clock
can be read back.
-/
namespace DotMatrix.Clock

namespace Counters

variable {c : Counters}

theorem fits_default : Fits {} := ⟨by decide, by decide, by decide, by decide⟩

theorem fits_tickDay (h : c.Fits) : c.tickDay.Fits := by
  rcases h with ⟨hs, hm, hh, _⟩
  rw [tickDay]
  split
  · exact ⟨hs, hm, hh, Nat.zero_lt_succ _⟩
  · refine ⟨hs, hm, hh, ?_⟩
    change c.days + 1 < 512
    omega

theorem fits_tickHour (h : c.Fits) : c.tickHour.Fits := by
  rcases h with ⟨hs, hm, _, hd⟩
  rw [tickHour]
  split
  · exact fits_tickDay ⟨hs, hm, Nat.zero_lt_succ _, hd⟩
  · exact ⟨hs, hm, Nat.mod_lt _ (Nat.zero_lt_succ _), hd⟩

theorem fits_tickMinute (h : c.Fits) : c.tickMinute.Fits := by
  rcases h with ⟨hs, _, hh, hd⟩
  rw [tickMinute]
  split
  · exact fits_tickHour ⟨hs, Nat.zero_lt_succ _, hh, hd⟩
  · exact ⟨hs, Nat.mod_lt _ (Nat.zero_lt_succ _), hh, hd⟩

theorem fits_tick (h : c.Fits) : c.tick.Fits := by
  rcases h with ⟨_, hm, hh, hd⟩
  rw [tick]
  split
  · exact fits_tickMinute ⟨Nat.zero_lt_succ _, hm, hh, hd⟩
  · exact ⟨Nat.mod_lt _ (Nat.zero_lt_succ _), hm, hh, hd⟩

theorem fits_advanceTime (n : Nat) (c : Counters) : (c.advanceTime n).Fits := by
  have hday : (c.seconds + 60 * (c.minutes + 60 * c.hours) + n) % secondsPerDay < secondsPerDay :=
    Nat.mod_lt _ (Nat.zero_lt_succ _)
  refine ⟨?_, ?_, ?_, Nat.mod_lt _ (Nat.zero_lt_succ _)⟩
  all_goals
    simp only [advanceTime]
    simp only [secondsPerDay] at hday ⊢
    omega

theorem fits_advance (h : c.Fits) (n : Nat) : (c.advance n).Fits := by
  induction n generalizing c with
  | zero => exact h
  | succ n ih =>
    rw [advance]
    split
    · exact fits_advanceTime (n + 1) c
    · exact ih (fits_tick h)

theorem fits_setDayHigh (h : c.Fits) (value : UInt8) : (c.setDayHigh value).Fits := by
  refine ⟨h.1, h.2.1, h.2.2.1, ?_⟩
  change c.days % 256 + 256 * (value.toNat % 2) < 512
  omega

/-! ## The layout of the counters -/

open Snapshot Snapshot.Layout

@[simp] theorem length_write_layout (c : Counters) : (layout.write c).length = 20 := by
  simp [layout]

/-- The high register of the days tells the ninth bit, the halt and the carry. -/
theorem dayHigh_bits (h : c.Fits) :
    c.dayHigh.toNat % 2 = c.days / 256 ∧ (c.dayHigh &&& 0x40 != 0) = c.halted ∧
      (c.dayHigh &&& 0x80 != 0) = c.carry := by
  have hd := h.2.2.2
  have hbit : c.days / 256 = 0 ∨ c.days / 256 = 1 := by omega
  rw [dayHigh]
  rcases hbit with hb | hb <;> rw [hb] <;> cases c.halted <;> cases c.carry <;> decide

theorem setDayHigh_dayHigh (h : c.Fits) :
    { c with days := c.days % 256 }.setDayHigh c.dayHigh = c := by
  rcases dayHigh_bits h with ⟨hbit, hhalted, hcarry⟩
  have hdays : c.days % 256 % 256 + 256 * (c.days / 256) = c.days := by omega
  simp only [setDayHigh, hbit, hhalted, hcarry, hdays]

theorem restores_layout (h : c.Fits) (c₀ : Counters) : layout.Restores c c₀ c := by
  have hset := setDayHigh_dayHigh h
  rcases h with ⟨hs, hm, hh, hd⟩
  apply Restores.congr
  · exact restores_cons (restores_number (lt_byteSpan hs)) <|
      restores_cons (restores_number (lt_byteSpan hm)) <|
      restores_cons (restores_number (lt_byteSpan hh)) <|
      restores_cons (restores_number (lt_byteSpan (Nat.mod_lt _ (Nat.zero_lt_succ 255)))) <|
      restores_cons (restores_number (lt_byteSpan c.dayHigh.toNat_lt)) restores_nil
  · rw [Nat.mod_eq_of_lt hs, Nat.mod_eq_of_lt hm, Nat.mod_eq_of_lt hh, Nat.mod_mod,
      UInt8.ofNat_toNat]
    exact hset

theorem reads_layout (c : Counters) : layout.Reads 20 c Fits := by
  apply reads_cons_number; intro seconds _
  apply reads_cons_number; intro minutes _
  apply reads_cons_number; intro hours _
  apply reads_cons_number; intro days _
  apply reads_cons_number; intro high _
  apply reads_nil
  refine ⟨Nat.mod_lt _ (Nat.zero_lt_succ _), Nat.mod_lt _ (Nat.zero_lt_succ _),
    Nat.mod_lt _ (Nat.zero_lt_succ _), ?_⟩
  change days % 256 % 256 + 256 * ((UInt8.ofNat high).toNat % 2) < 512
  omega

theorem takes_layout : layout.Takes 20 :=
  takes_cons takes_number <| takes_cons takes_number <| takes_cons takes_number <|
    takes_cons takes_number <| takes_cons takes_number takes_nil

theorem keeps_layout : layout.Keeps Fits := by
  refine keeps_cons (keeps_number fun c v _ h => ?_) <| keeps_cons (keeps_number fun c v _ h => ?_) <|
    keeps_cons (keeps_number fun c v _ h => ?_) <| keeps_cons (keeps_number fun c v _ h => ?_) <|
    keeps_cons (keeps_number fun c v _ h => ?_) keeps_nil
  · exact ⟨Nat.mod_lt _ (Nat.zero_lt_succ _), h.2.1, h.2.2.1, h.2.2.2⟩
  · exact ⟨h.1, Nat.mod_lt _ (Nat.zero_lt_succ _), h.2.2.1, h.2.2.2⟩
  · exact ⟨h.1, h.2.1, Nat.mod_lt _ (Nat.zero_lt_succ _), h.2.2.2⟩
  · refine ⟨h.1, h.2.1, h.2.2.1, ?_⟩
    change v % 256 < 512
    omega
  · exact fits_setDayHigh h _

end Counters

variable {c : Clock}

theorem clockRate_pos : 0 < clockRate := Nat.zero_lt_succ _

/-- The counters fit their bits, the anchor its word, and the second is not over. -/
structure InRange (c : Clock) : Prop where
  live : c.live.Fits
  latched : c.latched.Fits
  anchor : c.anchor < byteSpan 8
  dots : c.dots < clockRate

theorem inRange_anchored {now : Nat} (h : now < byteSpan 8) : InRange { anchor := now } :=
  ⟨Counters.fits_default, Counters.fits_default, h, clockRate_pos⟩

theorem InRange.writeLatch (h : c.InRange) (value : UInt8) : (c.writeLatch value).InRange := by
  refine ⟨h.live, ?_, h.anchor, h.dots⟩
  change (if c.latch = 0 ∧ value = 1 then c.live else c.latched).Fits
  split
  · exact h.live
  · exact h.latched

theorem InRange.write (h : c.InRange) (register value : UInt8) : (c.write register value).InRange := by
  have hv := value.toNat_lt
  rcases h.live with ⟨hs, hm, hh, hd⟩
  rw [Clock.write]
  split
  · exact ⟨⟨Nat.mod_lt _ (Nat.zero_lt_succ _), hm, hh, hd⟩, h.latched, h.anchor, clockRate_pos⟩
  · exact ⟨⟨hs, Nat.mod_lt _ (Nat.zero_lt_succ _), hh, hd⟩, h.latched, h.anchor, h.dots⟩
  · exact ⟨⟨hs, hm, Nat.mod_lt _ (Nat.zero_lt_succ _), hd⟩, h.latched, h.anchor, h.dots⟩
  · refine ⟨⟨hs, hm, hh, ?_⟩, h.latched, h.anchor, h.dots⟩
    change c.live.days / 256 % 2 * 256 + value.toNat < 512
    omega
  · exact ⟨Counters.fits_setDayHigh h.live value, h.latched, h.anchor, h.dots⟩
  · exact h

theorem InRange.setTime (h : c.InRange) (days hours minutes seconds : Nat) {now : Nat}
    (hn : now < byteSpan 8) : (c.setTime days hours minutes seconds now).InRange := by
  refine ⟨⟨?_, ?_, ?_, Nat.mod_lt _ (Nat.zero_lt_succ _)⟩, h.latched, hn, clockRate_pos⟩
  · exact Nat.lt_of_le_of_lt (Nat.min_le_right seconds 59) (by decide)
  · exact Nat.lt_of_le_of_lt (Nat.min_le_right minutes 59) (by decide)
  · exact Nat.lt_of_le_of_lt (Nat.min_le_right hours 23) (by decide)

theorem InRange.advance (h : c.InRange) (dots : Nat) : (c.advance dots).InRange := by
  rw [Clock.advance]
  split
  · exact h
  · exact ⟨Counters.fits_advance h.live _, h.latched, h.anchor, Nat.mod_lt _ clockRate_pos⟩

theorem InRange.reanchor (h : c.InRange) {now : Nat} (hn : now < byteSpan 8) :
    InRange { c with anchor := now } :=
  ⟨h.live, h.latched, hn, h.dots⟩

theorem InRange.catchUp (h : c.InRange) {now : Nat} (hn : now < byteSpan 8) :
    (c.catchUp now).InRange := by
  refine ⟨?_, h.latched, hn, h.dots⟩
  simp only [Clock.catchUp]
  split
  · exact h.live
  · exact Counters.fits_advance h.live _

/-! ## The layout of the clock -/

open Snapshot Snapshot.Layout

@[simp] theorem length_write_tail (c : Clock) : (tail.write c).length = tailSize := by
  simp [tail, tailSize]

theorem keeps_tail : tail.Keeps InRange := by
  refine keeps_cons (keeps_part Counters.keeps_layout (fun _ h => h.live) fun c v h hv => ?_) <|
    keeps_cons (keeps_part Counters.keeps_layout (fun _ h => h.latched) fun c v h hv => ?_) <|
    keeps_cons (keeps_number fun c v hv h => ?_) <| keeps_cons (keeps_adjust fun c h => ?_) keeps_nil
  · exact ⟨hv, h.latched, h.anchor, h.dots⟩
  · exact ⟨h.live, hv, h.anchor, h.dots⟩
  · exact h.reanchor hv
  · exact ⟨h.live, h.latched, h.anchor, clockRate_pos⟩

theorem InRange.loadTail (h : c.InRange) (bytes : Bytes) : (c.loadTail bytes).InRange :=
  keeps_tail bytes c h

theorem reads_tail (c : Clock) : tail.Reads tailSize c InRange := by
  apply reads_cons_part (Counters.reads_layout _); intro live hlive
  apply reads_cons_part (Counters.reads_layout _); intro latched hlatched
  apply reads_cons_number; intro anchor hanchor
  apply reads_cons_adjust
  exact reads_nil ⟨hlive, hlatched, hanchor, clockRate_pos⟩

theorem takes_tail : tail.Takes tailSize :=
  takes_cons (takes_part Counters.takes_layout) <|
    takes_cons (takes_part Counters.takes_layout) <| takes_cons takes_number <|
    takes_cons takes_adjust takes_nil

/-- A whole tail leaves nothing of what was there. -/
theorem inRange_loadTail (c : Clock) {bytes : Bytes} (hl : bytes.length = tailSize) :
    (c.loadTail bytes).InRange :=
  takes_tail.of_reads (reads_tail c) hl

theorem loadTail_write (h : c.InRange) (c₀ : Clock) :
    c₀.loadTail (tail.write c) =
      { c₀ with live := c.live, latched := c.latched, anchor := c.anchor, dots := 0 } := by
  have hr := (restores_cons (restores_part (Counters.restores_layout h.live c₀.live)) <|
    restores_cons (restores_part (Counters.restores_layout h.latched c₀.latched)) <|
    restores_cons (restores_number h.anchor) <| restores_cons restores_adjust restores_nil :
      tail.Restores c c₀ _) []
  rw [List.append_nil] at hr
  exact congrArg Prod.fst hr

theorem length_write_layout (c : Clock) : (layout.write c).length = 5 + tailSize := by
  have hf : ((field tailSize tail.write fun c bytes => c.loadTail bytes).write c).length =
    tailSize := length_write_tail c
  simp [layout, hf, Nat.add_comm]

theorem restores_layout (h : c.InRange) (c₀ : Clock) : layout.Restores c c₀ c := by
  have hd : c.dots < byteSpan 4 := lt_byteSpan h.dots
  apply Restores.congr
  · exact restores_cons (restores_field (length_write_tail c)) <|
      restores_cons (restores_number hd) <| restores_cons restores_byte restores_nil
  · rw [loadTail_write h, Nat.mod_eq_of_lt h.dots]

theorem reads_layout (c : Clock) : layout.Reads (5 + tailSize) c InRange := by
  apply reads_cons_field; intro bytes hl
  apply reads_cons_number; intro dots _
  apply reads_cons_byte; intro _
  have ht := c.inRange_loadTail hl
  exact reads_nil ⟨ht.live, ht.latched, ht.anchor, Nat.mod_lt _ clockRate_pos⟩

theorem keeps_layout : layout.Keeps InRange :=
  keeps_cons (keeps_field fun _ bytes h => h.loadTail bytes) <|
    keeps_cons (keeps_number fun _ _ _ h =>
      ⟨h.live, h.latched, h.anchor, Nat.mod_lt _ clockRate_pos⟩) <|
    keeps_cons (keeps_byte fun _ _ h => ⟨h.live, h.latched, h.anchor, h.dots⟩) keeps_nil

end DotMatrix.Clock
