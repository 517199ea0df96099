import DotMatrix.Machine.Basic

/-!
# Budgets

`runFor` makes whole steps until a budget of dots is spent. The last step may run
beyond it, which shortens the next budget. It ends because every step takes time,
except that a debt of a single cycle at double speed is paid in no dots, after which
nothing is owed.
-/
namespace DotMatrix

namespace Bus

theorem hblanks_advance_zero (v : Video) (flags : UInt8) : (v.advance 0 flags).hblanks = 0 := by
  unfold Video.advance
  split <;> rfl

theorem stall_advanceObjects (cycles : Nat) (b : Bus) :
    (b.advanceObjects cycles).stall = b.stall := by
  rw [advanceObjects_frame]

/-- Cycles that last no dots let nothing move that makes the processor wait. -/
theorem stall_advance_of_dotsIn_eq_zero {cycles : Nat} {b : Bus} (h : b.dotsIn cycles = 0) :
    (b.advance cycles).1.stall = b.stall := by
  have hv : ((b.advanceTimer cycles).advanceVideo 0).stall = b.stall := by
    simp only [advanceVideo, hblanks_advance_zero, Nat.repeat]
    rfl
  simp only [advance, h]
  rw [stall_advanceObjects]
  exact hv

theorem dots_advance (cycles : Nat) (b : Bus) : (b.advance cycles).2 = b.dotsIn cycles := rfl

end Bus

namespace Core

open Processor

variable (c : Core)

theorem cycles_set (target : Operand) (v : UInt8) : (c.set target v).cpu.cycles = c.cpu.cycles := by
  cases target <;> rfl

theorem cycles_setPair (target : Pair) (v : UInt16) :
    (c.setPair target v).cpu.cycles = c.cpu.cycles := by
  cases target <;> rfl

theorem cycles_movePointer (pointer : Pointer) :
    (c.movePointer pointer).cpu.cycles = c.cpu.cycles := by
  cases pointer <;> rfl

theorem cycles_update (target : Operand) (f : UInt8 → UInt8 → UInt8 × UInt8) :
    (c.update target f).cpu.cycles = c.cpu.cycles :=
  cycles_set (c.mapCpu ({ · with f := (f c.cpu.f (c.get target)).2 })) target _

theorem cycles_executeExtended (i : Extended) :
    (c.executeExtended i).1.cpu.cycles = c.cpu.cycles := by
  cases i with
  | shift s target => exact cycles_update c target s.apply
  | test bit source => rfl
  | reset bit target => exact cycles_set c target _
  | set bit target => exact cycles_set c target _

/-- What an instruction does is one thing, and the cycles that it takes another. -/
theorem cycles_execute (i : Instruction) : (c.execute i).1.cpu.cycles = c.cpu.cycles := by
  cases i with
  | stop => simp only [execute, stop]; split <;> rfl
  | halt => simp only [execute, halt, mapCpu]; split <;> rfl
  | enableInterrupts => simp only [execute, mapCpu]; split <;> rfl
  | load target source => exact cycles_set c target _
  | loadByte target => exact cycles_set c.fetch.1 target _
  | loadWord target => exact cycles_setPair c.fetchWord.1 target _
  | loadFrom pointer => exact cycles_movePointer (c.set .a _) pointer
  | storeTo pointer => exact cycles_movePointer (c.write _ _) pointer
  | incrementPair target => exact cycles_setPair c target _
  | decrementPair target => exact cycles_setPair c target _
  | increment target => exact cycles_update c target _
  | decrement target => exact cycles_update c target _
  | jumpRelative condition => simp only [execute]; split <;> rfl
  | jump condition => simp only [execute]; split <;> rfl
  | call condition => simp only [execute]; split <;> rfl
  | retIf condition => simp only [execute]; split <;> rfl
  | pop target => cases target <;> rfl
  | extended => exact cycles_executeExtended c.fetch.1 _
  | _ => rfl

theorem cycles_fetchCode : c.fetchCode.1.cpu.cycles = c.cpu.cycles + machineCycle := by
  simp only [fetchCode]
  split <;> rfl

theorem le_cycles_instruct : c.cpu.cycles + machineCycle ≤ c.instruct.1.cpu.cycles := by
  rw [← cycles_fetchCode, instruct]
  dsimp only
  split
  · exact Nat.le_refl _
  · rename_i i _
    rw [← cycles_execute c.fetchCode.1 i]
    exact Nat.le_add_right _ _

theorem le_cycles_proceed : c.cpu.cycles + machineCycle ≤ c.proceed.1.cpu.cycles := by
  rw [proceed]
  split
  · exact Nat.add_le_add_left (by decide) _
  · exact le_cycles_instruct c

theorem le_cycles_stepMachine : c.cpu.cycles + machineCycle ≤ c.stepMachine.1.cpu.cycles := by
  rw [stepMachine]
  split
  · exact Nat.le_refl _
  split
  · exact le_cycles_proceed c
  split
  · exact Nat.le_refl _
  · exact Nat.le_trans (Nat.le_add_right _ _) (le_cycles_proceed c.wake)

/-- Every step takes a machine cycle at least. -/
theorem machineCycle_le_of_step {c c' : Core} {cycles : Nat} (h : c.step = (c', .ok cycles)) :
    machineCycle ≤ cycles := by
  have hle := le_cycles_stepMachine c.start
  rw [step] at h
  rcases hm : c.start.stepMachine with ⟨stepped, failure | result⟩
  · rw [hm] at h
    cases h
  · rw [hm] at h hle
    cases h
    exact Nat.le_trans (Nat.le_add_left _ _) hle

end Core

namespace Machine

/-- A step that takes no dots has paid a debt. -/
theorem stall_step_lt {m m' : Machine} (h : m.step = (m', .ok 0)) :
    m'.core.bus.stall < m.core.bus.stall := by
  simp only [step] at h
  split at h
  · split at h
    · exact absurd (congrArg Prod.snd h) (by simp)
    · rename_i core cycles hstep
      have hc := Core.machineCycle_le_of_step hstep
      have hd := congrArg Prod.snd h
      simp only [advance, Bus.dots_advance, Bus.dotsIn, Except.ok.injEq] at hd
      simp only [Core.machineCycle] at hc
      split at hd <;> omega
  · rename_i hstall
    have hd := congrArg Prod.snd h
    have hm := congrArg (fun r => r.1.core.bus.stall) h
    simp only [takeStall, advance, Bus.dots_advance, Except.ok.injEq] at hd
    simp only [takeStall, advance, Bus.stall_advance_of_dotsIn_eq_zero hd] at hm
    rw [← hm]
    exact Nat.pos_of_ne_zero hstall

def spend (dots : Nat) (m : Machine) : Machine × Except Failure Unit :=
  match _stepped : m.step with
  | (m, .error failure) => ({ m with overshoot := 0 }, .error failure)
  | (m, .ok elapsed) =>
    if dots ≤ elapsed then ({ m with overshoot := elapsed - dots }, .ok ())
    else m.spend (dots - elapsed)
termination_by (dots, m.core.bus.stall)
decreasing_by
  rcases Nat.eq_zero_or_pos elapsed with rfl | hpos
  · exact Prod.Lex.right _ (stall_step_lt _stepped)
  · exact Prod.Lex.left _ _ (by omega)

/-- Spends a budget of dots, less what was run beyond the last one. -/
def runFor (dots : Nat) (m : Machine) : Machine × Except Failure Unit :=
  if dots ≤ m.overshoot then ({ m with overshoot := m.overshoot - dots }, .ok ())
  else m.spend (dots - m.overshoot)

end Machine

end DotMatrix
