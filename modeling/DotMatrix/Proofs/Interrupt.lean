import DotMatrix.Joypad
import DotMatrix.Proofs.Word
import DotMatrix.Timer
import DotMatrix.Video.Registers

/-!
# Requests stay on their lines

The units request interrupts by raising lines, and so the flag register never holds a
bit that stands for no line.
-/
namespace DotMatrix

namespace Interrupt

/-- Only lines that exist are set. -/
def OnLines (flags : UInt8) : Prop := flags.toNat < 32

variable {flags : UInt8}

theorem onLines_and_lines (v : UInt8) : OnLines (v &&& lines) :=
  toNat_and_mask_lt 5 rfl

theorem OnLines.and_lines (h : OnLines flags) : flags &&& lines = flags :=
  and_mask_of_lt 5 rfl h

theorem OnLines.and (h : OnLines flags) (v : UInt8) : OnLines (flags &&& v) := by
  rw [OnLines, UInt8.toNat_and]
  exact Nat.lt_of_le_of_lt Nat.and_le_left h

theorem onLines_bit (i : Interrupt) : OnLines i.bit := by
  cases i <;> simp [OnLines, bit]

theorem OnLines.raise (h : OnLines flags) (i : Interrupt) (now : Bool) :
    OnLines (i.raise flags now) := by
  cases now with
  | false => exact h
  | true =>
    change (flags ||| i.bit).toNat < 2 ^ 5
    rw [UInt8.toNat_or]
    exact Nat.or_lt_two_pow h (onLines_bit i)

end Interrupt

open Interrupt

variable {flags : UInt8}

/-! ## The timer and the joypad -/

theorem Timer.onLines_resetDivider (h : OnLines flags) (t : Timer) :
    OnLines (t.resetDivider flags).2 :=
  h.raise _ _

theorem Timer.onLines_advance (h : OnLines flags) (n : Nat) (t : Timer) :
    OnLines (advance n t flags).2 := by
  induction n generalizing t flags with
  | zero => exact h
  | succ n ih => exact ih (h.raise _ _) t.tick

theorem Timer.onLines_write (h : OnLines flags) (t : Timer) (address : UInt16) (value : UInt8) :
    OnLines (t.write address value flags).2 := by
  rw [write]
  split
  · exact t.onLines_resetDivider h
  all_goals exact h

theorem Joypad.onLines_write (h : OnLines flags) (j : Joypad) (value : UInt8) :
    OnLines (j.write value flags).2 :=
  h.raise _ _

theorem Joypad.onLines_press (h : OnLines flags) (j : Joypad) (buttons : UInt8) :
    OnLines (j.press buttons flags).2 :=
  h.raise _ _

/-! ## The video unit -/

namespace Video

theorem onLines_updateStat (h : OnLines flags) (v : Video) : OnLines (v.updateStat flags).2 :=
  h.raise _ _

theorem onLines_nextMode {r : Run} (h : OnLines r.flags) : OnLines r.nextMode.flags := by
  rw [Run.nextMode]
  simp only
  split
  · exact h
  · exact h
  · split
    · exact h.raise _ _
    · exact h
  · split <;> exact h

theorem onLines_tick {r : Run} (h : OnLines r.flags) : OnLines r.tick.flags := by
  rw [Run.tick]
  split
  · exact h
  · exact onLines_updateStat (onLines_nextMode h) _

theorem onLines_advance (h : OnLines flags) (dots : Nat) (v : Video) :
    OnLines (v.advance dots flags).flags := by
  rw [advance]
  split
  · exact repeat_invariant (P := fun r : Run => OnLines r.flags) (fun _ => onLines_tick) dots h
  · exact h

theorem onLines_writeControl (h : OnLines flags) (v : Video) (value : UInt8) :
    OnLines (v.writeControl value flags).2 := by
  unfold writeControl
  simp only
  split
  · exact h
  split
  · exact onLines_updateStat h _
  · exact h

theorem onLines_write (h : OnLines flags) (v : Video) (address : UInt16) (value : UInt8) :
    OnLines (v.write address value flags).2 := by
  rw [write]
  split
  · exact v.onLines_writeControl h value
  case h_2 => exact onLines_updateStat h _
  case h_5 => exact onLines_updateStat h _
  all_goals exact h

end Video

end DotMatrix
