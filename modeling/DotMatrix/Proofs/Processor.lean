import DotMatrix.Processor.Layout
import DotMatrix.Proofs.Snapshot.Layout
import DotMatrix.Proofs.Word

/-!
# The processor in a snapshot
-/
namespace DotMatrix.Processor

variable {p : Processor}

/-- The lower half of the flags does not exist, and interrupts are allowed after two
instructions at most. -/
structure InRange (p : Processor) : Prop where
  flags : p.f &&& 0xF0 = p.f
  enableDelay : p.enableDelay ≤ maxEnableDelay

theorem inRange_default : InRange {} := ⟨by decide, Nat.zero_le _⟩

theorem inRange_boot (model : Model) : (boot model).InRange := by
  cases model <;> exact ⟨by decide, by decide⟩

open Snapshot Snapshot.Layout

@[simp] theorem length_write_layout (p : Processor) : (layout.write p).length = 17 := by
  simp [layout]

theorem restores_layout (h : p.InRange) (p₀ : Processor) :
    layout.Restores p p₀ { p with cycles := p₀.cycles } := by
  have hd : p.enableDelay < byteSpan 1 := lt_byteSpan_of_le h.enableDelay
  apply Restores.congr
  · exact restores_cons restores_byte <| restores_cons restores_byte <|
      restores_cons restores_byte <| restores_cons restores_byte <| restores_cons restores_byte <|
      restores_cons restores_byte <| restores_cons restores_byte <| restores_cons restores_byte <|
      restores_cons restores_half <| restores_cons restores_half <| restores_cons restores_flag <|
      restores_cons restores_flag <| restores_cons restores_flag <| restores_cons restores_flag <|
      restores_cons (restores_number hd) restores_nil
  · simp only [h.flags, Nat.min_eq_left h.enableDelay]

theorem reads_layout (p : Processor) : layout.Reads 17 p InRange := by
  apply reads_cons_byte; intro _
  apply reads_cons_byte; intro f
  apply reads_cons_byte; intro _
  apply reads_cons_byte; intro _
  apply reads_cons_byte; intro _
  apply reads_cons_byte; intro _
  apply reads_cons_byte; intro _
  apply reads_cons_byte; intro _
  apply reads_cons_half; intro _
  apply reads_cons_half; intro _
  apply reads_cons_flag; intro _
  apply reads_cons_flag; intro _
  apply reads_cons_flag; intro _
  apply reads_cons_flag; intro _
  apply reads_cons_number; intro delay _
  exact reads_nil ⟨and_mask_idem f 0xF0, Nat.min_le_right _ _⟩

end DotMatrix.Processor
