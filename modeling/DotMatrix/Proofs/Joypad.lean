import DotMatrix.Joypad
import DotMatrix.Proofs.Snapshot.Layout
import DotMatrix.Proofs.Word

/-!
# The joypad in a snapshot
-/
namespace DotMatrix.Joypad

variable {j : Joypad}

/-- Only the two selection bits are kept. -/
def InRange (j : Joypad) : Prop := j.select &&& 0x30 = j.select

theorem inRange_write (j : Joypad) (value flags : UInt8) : (j.write value flags).1.InRange :=
  and_mask_idem value 0x30

theorem InRange.press (h : j.InRange) (buttons flags : UInt8) :
    (j.press buttons flags).1.InRange := h

open Snapshot Snapshot.Layout

@[simp] theorem length_write_layout (j : Joypad) : (layout.write j).length = 2 := by
  simp [layout]

theorem restores_layout (h : j.InRange) (j₀ : Joypad) : layout.Restores j j₀ j := by
  apply Restores.congr
  · exact restores_cons restores_byte <| restores_cons restores_byte restores_nil
  · rw [h]

theorem reads_layout (j : Joypad) : layout.Reads 2 j InRange := by
  apply reads_cons_byte; intro select
  apply reads_cons_byte; intro _
  exact reads_nil (and_mask_idem select 0x30)

end DotMatrix.Joypad
