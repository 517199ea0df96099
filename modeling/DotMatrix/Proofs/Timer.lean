import DotMatrix.Proofs.Snapshot.Layout
import DotMatrix.Proofs.Word
import DotMatrix.Timer

/-!
# The timer between steps and in a snapshot

The control register keeps to its three bits, and the modulo of a write is forgotten
with the cycle that follows. Everything else of the timer stands in its section.
-/
namespace DotMatrix.Timer

variable {t : Timer}

/-- The control register has no bits that do not exist. -/
def InRange (t : Timer) : Prop := t.control.toNat < 8

@[simp] theorem control_count (t : Timer) (old : Option UInt8) :
    (t.count old).control = t.control := by
  rw [count]
  split <;> rfl

@[simp] theorem control_advanceReload (t : Timer) : t.advanceReload.control = t.control := by
  rw [advanceReload]
  split
  · rfl
  · split <;> rfl

@[simp] theorem control_clockEdge (t : Timer) (old : Option UInt8) :
    (t.clockEdge old).control = t.control := by
  simp only [clockEdge]
  split
  · exact control_count t old
  · rfl

@[simp] theorem control_moveDivider (t : Timer) (div : UInt16) :
    (t.moveDivider div).control = t.control := by
  simp only [moveDivider, control_clockEdge, control_advanceReload]

@[simp] theorem control_advance (n : Nat) (t : Timer) (flags : UInt8) :
    (advance n t flags).1.control = t.control := by
  induction n generalizing t flags with
  | zero => rfl
  | succ n ih => rw [advance, ih, tick, control_moveDivider]

theorem InRange.advance (h : t.InRange) (n : Nat) (flags : UInt8) :
    (Timer.advance n t flags).1.InRange := by
  rwa [InRange, control_advance]

theorem InRange.resetDivider (h : t.InRange) (flags : UInt8) :
    (t.resetDivider flags).1.InRange := by
  rwa [InRange, Timer.resetDivider, control_moveDivider]

theorem inRange_writeControl (t : Timer) (value : UInt8) : (t.writeControl value).InRange := by
  have hm : (value &&& 0x07).toNat < 8 := toNat_and_mask_lt 3 rfl
  simp only [writeControl, InRange]
  split
  · rwa [control_count]
  · exact hm

theorem control_writeCounter (t : Timer) (value : UInt8) :
    (t.writeCounter value).control = t.control := by
  rw [writeCounter]
  split
  · rfl
  · split <;> rfl

theorem InRange.write (h : t.InRange) (address : UInt16) (value flags : UInt8) :
    (t.write address value flags).1.InRange := by
  rw [Timer.write]
  split
  · exact h.resetDivider flags
  · rwa [InRange, control_writeCounter]
  · exact h
  · exact inRange_writeControl t value
  · exact h

/-! ## Between steps -/

@[simp] theorem oldModulo_count (t : Timer) (old : Option UInt8) :
    (t.count old).oldModulo = t.oldModulo := by
  rw [count]
  split <;> rfl

theorem oldModulo_moveDivider (t : Timer) (div : UInt16) :
    (t.moveDivider div).oldModulo = none := by
  simp only [moveDivider, clockEdge]
  split
  · exact oldModulo_count _ _
  · rfl

/-- A cycle forgets the modulo before the last write. -/
theorem oldModulo_advance {n : Nat} (hn : n ≠ 0) (t : Timer) (flags : UInt8) :
    (advance n t flags).1.oldModulo = none := by
  have many (n : Nat) (t : Timer) (flags : UInt8) (h : t.oldModulo = none) :
      (advance n t flags).1.oldModulo = none := by
    induction n generalizing t flags with
    | zero => exact h
    | succ n ih => exact ih t.tick _ (oldModulo_moveDivider t _)
  cases n with
  | zero => exact absurd rfl hn
  | succ n => exact many n t.tick _ (oldModulo_moveDivider t _)

/-! ## In a snapshot -/

open Snapshot Snapshot.Layout

@[simp] theorem length_write_layout (t : Timer) : (layout.write t).length = 10 := by
  simp [layout]

/-- The section of a timer gives all of it back but the modulo before a write. -/
theorem restores_layout (h : t.InRange) (t₀ : Timer) :
    layout.Restores t t₀ { t with oldModulo := none } := by
  have hp : ∀ v ∈ t.pending.map UInt8.toNat, v < byteSpan 1 := by
    intro v hv
    obtain ⟨p, _, rfl⟩ := Option.map_eq_some_iff.mp hv
    exact p.toNat_lt
  apply Restores.congr
  · exact restores_cons restores_half <| restores_cons restores_byte <|
      restores_cons restores_byte <| restores_cons restores_byte <| restores_cons restores_flag <|
      restores_cons (restores_optional hp) <| restores_cons restores_byte <|
      restores_cons restores_flag <| restores_cons restores_adjust restores_nil
  · have hc : t.control &&& 0x07 = t.control := and_mask_of_lt 3 rfl h
    have ho : (t.pending.map UInt8.toNat).map UInt8.ofNat = t.pending := by
      cases t.pending <;> simp
    simp only [hc, ho]

theorem reads_layout (t : Timer) :
    layout.Reads 10 t fun t' => t'.InRange ∧ t'.oldModulo = none := by
  apply reads_cons_half; intro _
  apply reads_cons_byte; intro _
  apply reads_cons_byte; intro _
  apply reads_cons_byte; intro control
  apply reads_cons_flag; intro _
  apply reads_cons_optional; intro _ _
  apply reads_cons_byte; intro _
  apply reads_cons_flag; intro _
  apply reads_cons_adjust
  exact reads_nil ⟨toNat_and_mask_lt 3 rfl, rfl⟩

end DotMatrix.Timer
