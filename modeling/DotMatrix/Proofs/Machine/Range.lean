import DotMatrix.Machine.Run
import DotMatrix.Machine.Snapshot
import DotMatrix.Proofs.Core

/-!
# The ranges of a machine

Between steps a machine owes at most the price of the longest transfer, has run at most
that far beyond its budget, and its timer has forgotten the modulo before a write. Steps,
budgets and buttons lead from ranges to ranges.
-/
namespace DotMatrix

namespace Bus

variable {b : Bus}

/-! ## The bus while cycles pass -/

theorem timer_transferNext (b : Bus) : b.transferNext.timer = b.timer := by
  rw [transferNext_frame]

theorem joypad_transferNext (b : Bus) : b.transferNext.joypad = b.joypad := by
  rw [transferNext_frame]

theorem timer_advance (cycles : Nat) (b : Bus) :
    (b.advance cycles).1.timer = (b.timer.advance cycles b.requests).1 := by
  simp only [advance]
  rw [advanceObjects_frame]
  exact repeat_unchanged (g := fun b : Bus => b.timer) timer_transferNext _ _

/-- Only buttons and writes move the joypad. -/
theorem joypad_advance (cycles : Nat) (b : Bus) : (b.advance cycles).1.joypad = b.joypad := by
  simp only [advance]
  rw [advanceObjects_frame]
  exact repeat_unchanged (g := fun b : Bus => b.joypad) joypad_transferNext _ _

/-- What is owed after some cycles was owed before, or is due for blocks that were left. -/
theorem stall_advance_le (cycles : Nat) (b : Bus) : (b.advance cycles).1.stall ≤ b.debt := by
  have hobjects := stall_advanceObjects cycles
    { (b.advanceTimer cycles).advanceVideo (b.dotsIn cycles) with
      sound := ((b.advanceTimer cycles).advanceVideo (b.dotsIn cycles)).sound.advance
        (b.dotsIn cycles) }
  have hvideo : ((b.advanceTimer cycles).advanceVideo (b.dotsIn cycles)).debt ≤ b.debt :=
    debt_repeat_transferNext_le _ _
  exact Nat.le_trans (Nat.le_of_eq hobjects) (Nat.le_trans (stall_le_debt _) hvideo)

theorem dotsIn_le (b : Bus) (cycles : Nat) : b.dotsIn cycles ≤ cycles := by
  rw [dotsIn]
  split
  · exact Nat.div_le_self cycles 2
  · exact Nat.le_refl cycles

end Bus

/-- A step that fails has only read. -/
theorem Core.bus_of_step_error {c c' : Core} {failure : Failure}
    (h : c.step = (c', .error failure)) : c'.bus = c.bus := by
  have hinstruct {c c' : Core} (h : c.instruct = (c', .error failure)) : c'.bus = c.bus := by
    rw [instruct] at h
    dsimp only at h
    split at h
    · cases h
      exact bus_fetchCode c
    · cases h
  have hproceed {c c' : Core} (h : c.proceed = (c', .error failure)) : c'.bus = c.bus := by
    rw [proceed] at h
    split at h
    · cases h
    · exact hinstruct h
  have hmachine {c c' : Core} (h : c.stepMachine = (c', .error failure)) : c'.bus = c.bus := by
    rw [stepMachine] at h
    split at h
    · cases h
    split at h
    · exact hproceed h
    split at h
    · cases h
    · exact hproceed (c := c.wake) h
  rw [step] at h
  rcases hm : c.start.stepMachine with ⟨stepped, refused | result⟩
  · rw [hm] at h
    cases h
    exact hmachine (c := c.start) hm
  · rw [hm] at h
    cases h

namespace Machine

structure InRange (m : Machine) : Prop where
  cpu : m.core.cpu.InRange
  bus : m.core.bus.InRange
  stall : m.core.bus.stall ≤ Bus.maxStall
  /-- No write to the modulo is pending in the timer. -/
  settled : m.core.bus.timer.oldModulo = none
  overshoot : m.overshoot ≤ maxOvershoot

/-- What stays the same for as long as the console is on. -/
def hardware (m : Machine) : Bus.Hardware := m.core.bus.hardware

/-- No frame of audio has had more dots than its phase tells. -/
def Paced (m : Machine) : Prop := m.core.bus.sound.resampler.Paced

/-- The block transfer, what is owed for it and the dots run in advance are within their
bounds. -/
structure Bounded (m : Machine) : Prop where
  blockTransfer : m.core.bus.blockTransfer.InRange
  stall : m.core.bus.stall ≤ Bus.maxStall
  overshoot : m.overshoot ≤ maxOvershoot

/-- What every operation of the machine does. The bounds hold only together: the wait is
that of a transfer in range, and no step runs for longer than the wait. -/
structure Evolves (m m' : Machine) : Prop where
  bus : Bus.Evolves m.core.bus m'.core.bus
  cpu : m.core.cpu.InRange → m'.core.cpu.InRange
  bounded : m.Bounded → m'.Bounded
  settled : m.core.bus.timer.oldModulo = none → m'.core.bus.timer.oldModulo = none

variable {m m' m'' : Machine}

theorem InRange.bounded (h : m.InRange) : m.Bounded :=
  ⟨h.bus.blockTransfer, h.stall, h.overshoot⟩

theorem Evolves.hardware (h : Evolves m m') : m'.hardware = m.hardware := h.bus.hardware

theorem Evolves.inRange (h : Evolves m m') (hm : m.InRange) : m'.InRange where
  cpu := h.cpu hm.cpu
  bus := h.bus.inRange hm.bus
  stall := (h.bounded hm.bounded).stall
  settled := h.settled hm.settled
  overshoot := (h.bounded hm.bounded).overshoot

theorem Evolves.paced (h : Evolves m m') (hm : m.InRange) : m.Paced → m'.Paced :=
  h.bus.paced hm.bus.sound

theorem Evolves.refl (m : Machine) : Evolves m m := ⟨.refl m.core.bus, id, id, id⟩

theorem Evolves.trans (h : Evolves m m') (h' : Evolves m' m'') : Evolves m m'' where
  bus := h.bus.trans h'.bus
  cpu := h'.cpu ∘ h.cpu
  bounded := h'.bounded ∘ h.bounded
  settled := h'.settled ∘ h.settled

theorem evolves_overshoot {n : Nat} (hn : m.Bounded → n ≤ maxOvershoot) :
    Evolves m { m with overshoot := n } :=
  { Evolves.refl m with bounded := fun h => ⟨h.blockTransfer, h.stall, hn h⟩ }

/-! ## Steps -/

/-- The cycles after a step, or after the wait that is paid. -/
theorem evolves_advance {cycles : Nat} (hc : cycles ≠ 0) {core : Core}
    (hb : Bus.Evolves m.core.bus core.bus)
    (hp : m.core.cpu.InRange → core.cpu.InRange)
    (hd : m.core.bus.blockTransfer.InRange → core.bus.debt ≤ Bus.maxStall) :
    Evolves m ({ m with core }.advance cycles).1 := by
  have ha := hb.trans (Bus.evolves_advance cycles core.bus)
  refine ⟨ha, hp, ?_, ?_⟩
  · intro h
    refine ⟨ha.blockTransfer h.blockTransfer, ?_, h.overshoot⟩
    exact Nat.le_trans (Bus.stall_advance_le cycles core.bus) (hd h.blockTransfer)
  · intro _
    change (core.bus.advance cycles).1.timer.oldModulo = none
    rw [Bus.timer_advance]
    exact Timer.oldModulo_advance hc core.bus.timer core.bus.requests

theorem evolves_step (m : Machine) : Evolves m m.step.1 := by
  rw [step]
  split
  · rename_i hs
    have hstep := Core.steps_step m.core
    split
    · rename_i core failure hf
      rw [hf] at hstep
      have hbus : core.bus = m.core.bus := Core.bus_of_step_error hf
      have hcpu : m.core.cpu.InRange → core.cpu.InRange := hstep.inRange
      cases core with
      | mk cpu bus =>
        cases hbus
        exact { Evolves.refl m with cpu := hcpu, bounded := fun h => { h with } }
    · rename_i core cycles hok
      rw [hok] at hstep
      have hcycles : cycles ≠ 0 :=
        Nat.ne_of_gt (Nat.lt_of_lt_of_le (Nat.zero_lt_succ 3) (Core.machineCycle_le_of_step hok))
      exact evolves_advance hcycles hstep.effect.evolves hstep.inRange
        fun h => hstep.effect.debt_le h hs
  · rename_i hs
    have hb : Bus.Evolves m.core.bus { m.core.bus with stall := 0 } := Bus.evolves_stall m.core.bus 0
    exact evolves_advance hs hb id fun h => Bus.debt_le_of_stall rfl h.blocks

/-- No step lasts longer than the wait for the longest transfer. -/
theorem Bounded.elapsed_le (h : m.Bounded) {elapsed : Nat} (hs : m.step = (m', .ok elapsed)) :
    elapsed ≤ maxOvershoot := by
  rw [step] at hs
  split at hs
  · split at hs
    · cases hs
    · rename_i core cycles hok
      cases hs
      have hdots := Bus.dotsIn_le core.bus cycles
      have hcycles : cycles ≤ 28 := Core.cycles_step_le hok
      exact Nat.le_trans (Nat.le_trans hdots hcycles) (by decide)
  · cases hs
    exact Nat.le_trans (Bus.dotsIn_le _ _) h.stall

/-! ## Budgets and buttons -/

theorem spend_of_error {dots : Nat} {failure : Failure} (hs : m.step = (m', .error failure)) :
    m.spend dots = ({ m' with overshoot := 0 }, .error failure) := by
  rw [spend]
  split
  · rename_i h
    rw [hs] at h
    cases h
    rfl
  · rename_i h
    rw [hs] at h
    cases h

theorem spend_of_ok {dots elapsed : Nat} (hs : m.step = (m', .ok elapsed)) :
    m.spend dots = if dots ≤ elapsed then ({ m' with overshoot := elapsed - dots }, .ok ())
      else m'.spend (dots - elapsed) := by
  rw [spend]
  split
  · rename_i h
    rw [hs] at h
    cases h
  · rename_i h
    rw [hs] at h
    cases h
    rfl

theorem evolves_spend (dots : Nat) (m : Machine) : Evolves m (m.spend dots).1 := by
  induction dots, m using spend.induct with
  | case1 dots m m' failure hs =>
    have hstep := evolves_step m
    rw [hs] at hstep
    rw [spend_of_error hs]
    exact hstep.trans (evolves_overshoot fun _ => Nat.zero_le _)
  | case2 dots m m' elapsed hs hle =>
    have hstep := evolves_step m
    rw [hs] at hstep
    rw [spend_of_ok hs, if_pos hle]
    refine ⟨hstep.bus, hstep.cpu, fun h => ?_, hstep.settled⟩
    have hm := hstep.bounded h
    exact ⟨hm.blockTransfer, hm.stall, Nat.le_trans (Nat.sub_le _ _) (h.elapsed_le hs)⟩
  | case3 dots m m' elapsed hs hgt ih =>
    have hstep := evolves_step m
    rw [hs] at hstep
    rw [spend_of_ok hs, if_neg hgt]
    exact hstep.trans ih

theorem evolves_runFor (dots : Nat) (m : Machine) : Evolves m (m.runFor dots).1 := by
  rw [runFor]
  split
  · exact evolves_overshoot fun h => Nat.le_trans (Nat.sub_le _ _) h.overshoot
  · exact evolves_spend _ m

/-- A change of the bus that owes nothing new and leaves the timer alone. -/
theorem evolves_mapBus {f : Bus → Bus} (hb : Bus.Evolves m.core.bus (f m.core.bus))
    (hs : (f m.core.bus).stall = m.core.bus.stall)
    (ht : (f m.core.bus).timer = m.core.bus.timer) : Evolves m (m.mapBus f) where
  bus := hb
  cpu := id
  bounded h := ⟨hb.blockTransfer h.blockTransfer, hs ▸ h.stall, h.overshoot⟩
  settled := (congrArg Timer.oldModulo ht).trans

theorem evolves_press (buttons : UInt8) (m : Machine) : Evolves m (m.mapBus (·.press buttons)) :=
  evolves_mapBus (Bus.evolves_press m.core.bus buttons) rfl rfl

end Machine

end DotMatrix
