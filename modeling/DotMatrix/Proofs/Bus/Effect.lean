import DotMatrix.Proofs.Bus.Decode
import DotMatrix.Proofs.Bus.Range

/-!
# What a step does to the bus

A step of the processor makes at most two writes, and two only at neighbours. It follows
that a step that owes nothing begins at most one transfer, and so owes no more than the
price of the longest one when it ends.
-/
namespace DotMatrix.Bus

/-- What the processor does to the bus in one step, before the cycles of the step pass. -/
inductive Effect : Bus → Bus → Prop
  | none (b : Bus) : Effect b b
  | write (b : Bus) (address : UInt16) (value : UInt8) : Effect b (b.write address value)
  | writes (b : Bus) (address next : UInt16) (value other : UInt8)
      (neighbours : next = address + 1 ∨ next = address - 1) :
      Effect b ((b.write address value).write next other)
  /-- A request is taken back before the handler is called. -/
  | serve (b b' : Bus) (kept : UInt8) (call : Effect { b with requests := b.requests &&& kept } b') :
      Effect b b'
  | resetDivider (b : Bus) : Effect b b.resetDivider
  | switchSpeed (b : Bus) : Effect b b.switchSpeed

variable {b b' : Bus}

theorem Effect.evolves (h : Effect b b') : Evolves b b' := by
  induction h with
  | none b => exact .refl b
  | write b address value => exact evolves_write b address value
  | writes b address next value other _ =>
    exact (evolves_write b address value).trans (evolves_write _ next other)
  | serve b b' kept _ ih => exact (evolves_requests fun h => h.and kept).trans ih
  | resetDivider b => exact evolves_resetDivider b
  | switchSpeed b => exact evolves_switchSpeed b

/-! ## The debt of a transfer -/

theorem debt_le_of_stall (hs : b.stall = 0) (hn : b.blockTransfer.blocks ≤ maxBlocks) :
    b.debt ≤ maxStall := by
  simp only [maxBlocks] at hn
  simp only [debt, blocksDue, hs, maxStall, maxBlocks]
  split <;> omega

theorem debt_transferPaced_le (hs : b.stall = 0) {blocks : Nat} (hn : blocks ≤ maxBlocks) :
    (b.transferPaced blocks).debt ≤ maxStall := by
  have hstart : (b.startPaced blocks).debt ≤ maxStall := debt_le_of_stall hs hn
  rw [transferPaced_eq]
  split
  · exact Nat.le_trans (debt_transferNext_le _) hstart
  · exact hstart

theorem debt_transferAll_le (hs : b.stall = 0) {blocks : Nat} (hn : blocks ≤ maxBlocks) :
    (b.transferAll blocks).debt ≤ maxStall := by
  have hmoved := copied_repeat copied_copyBlock blocks b.startWhole
  rw [transferAll_eq]
  generalize Nat.repeat copyBlock blocks b.startWhole = moved at hmoved ⊢
  obtain ⟨hrest, htransfer⟩ := hmoved
  have hstall : moved.stall = 0 := by
    rw [hrest]
    exact hs
  have hactive : moved.blockTransfer.active = false := by
    rw [htransfer]
    rfl
  have hprice : blocks * moved.blockStall ≤ maxBlocks * 64 :=
    Nat.mul_le_mul hn (blockStall_le moved)
  simp only [debt, payWhole, blocksDue, hactive, hstall, Bool.false_and, Bool.false_eq_true,
    if_false]
  rw [maxStall]
  omega

theorem debt_controlBlocks_le (h : b.blockTransfer.InRange) (hs : b.stall = 0) (value : UInt8) :
    (b.controlBlocks value).debt ≤ maxStall := by
  have hn : value.toNat % 0x80 + 1 ≤ maxBlocks := Nat.mod_lt _ (Nat.zero_lt_succ _)
  unfold controlBlocks
  dsimp only
  split
  · exact debt_transferPaced_le hs hn
  split
  · exact debt_le_of_stall hs h.blocks
  · exact debt_transferAll_le hs hn

/-! ## The debt after a write -/

def transferControl : UInt16 := 0xFF55

theorem debt_writeVideo_le (b : Bus) (address : UInt16) (value : UInt8) :
    (b.writeVideo address value).debt ≤ b.debt := by
  rw [writeVideo]
  dsimp only
  split
  · exact debt_repeat_transferNext_le _ _
  split
  · exact Nat.le_refl _
  · exact Nat.le_refl _

theorem debt_writeBlockTransfer_le {address : UInt16} (ha : address ≠ transferControl) (b : Bus)
    (value : UInt8) : (b.writeBlockTransfer address value).debt ≤ b.debt := by
  have hne : ¬address = 0xFF55 := ha
  rw [writeBlockTransfer, if_neg hne]
  split
  · exact Nat.le_refl _
  · have haim : blocksDue (b.blockTransfer.aim address value) = blocksDue b.blockTransfer := by
      unfold BlockTransfer.aim
      dsimp only
      split <;> rfl
    simp only [debt, haim, Nat.le_refl]

/-- Only the control register of the block transfer makes the debt larger. -/
theorem debt_write_le {address : UInt16} (ha : address ≠ transferControl) (b : Bus)
    (value : UInt8) : (b.write address value).debt ≤ b.debt := by
  have hregion (r : Region) : (b.writeRegion r address value).debt ≤ b.debt := by
    cases r with
    | video => exact debt_writeVideo_le b address value
    | blockTransfer =>
      simp only [writeRegion]
      split
      · exact debt_writeBlockTransfer_le ha b value
      · exact Nat.le_refl _
    | speed => simp only [writeRegion]; split <;> exact Nat.le_refl _
    | bootSwitch => simp only [writeRegion]; split <;> exact Nat.le_refl _
    | workBank => simp only [writeRegion]; split <;> exact Nat.le_refl _
    | _ => exact Nat.le_refl _
  unfold write
  dsimp only
  split
  · exact Nat.le_refl _
  split
  · exact hregion _
  · exact Nat.le_refl _

/-- The object transfer keeps no write from the registers. -/
theorem write_register {address : UInt16} (ha : ¬address < 0xFF00) (b : Bus) (value : UInt8) :
    b.write address value = if b.reachable (Region.decode address) then
      b.writeRegion (Region.decode address) address value else b := by
  simp only [write_eq, ha, decide_false, Bool.and_false, Bool.false_eq_true, if_false]

theorem write_transferControl (b : Bus) (value : UInt8) :
    b.write transferControl value = if b.cgb then b.controlBlocks value else b :=
  write_register (by decide) b value

theorem debt_write_transferControl_le (h : b.blockTransfer.InRange) (hs : b.stall = 0)
    (value : UInt8) : (b.write transferControl value).debt ≤ maxStall := by
  rw [write_transferControl]
  split
  · exact debt_controlBlocks_le h hs value
  · exact debt_le_of_stall hs h.blocks

/-- Nothing beside the control register begins or ends a transfer. -/
theorem stall_write_beside {address : UInt16} (ha : address = 0xFF54 ∨ address = 0xFF56) (b : Bus)
    (value : UInt8) : (b.write address value).stall = b.stall := by
  rcases ha with rfl | rfl
  · have hw : b.write 0xFF54 value = if b.cgb then b.writeBlockTransfer 0xFF54 value else b :=
      write_register (by decide) b value
    rw [hw]
    split
    · rw [writeBlockTransfer, if_neg (by decide)]
      split <;> rfl
    · rfl
  · have hw : b.write 0xFF56 value = b := write_register (by decide) b value
    rw [hw]

theorem debt_write_any_le (h : b.blockTransfer.InRange) (hs : b.stall = 0) (address : UInt16)
    (value : UInt8) : (b.write address value).debt ≤ maxStall := by
  by_cases ha : address = transferControl
  · rw [ha]
    exact debt_write_transferControl_le h hs value
  · exact Nat.le_trans (debt_write_le ha b value) (debt_le_of_stall hs h.blocks)

/-- A step that owed nothing owes at most the price of the longest transfer. -/
theorem Effect.debt_le (he : Effect b b') (h : b.blockTransfer.InRange) (hs : b.stall = 0) :
    b'.debt ≤ maxStall := by
  induction he with
  | none b => exact debt_le_of_stall hs h.blocks
  | write b address value => exact debt_write_any_le h hs address value
  | writes b address next value other hn =>
    by_cases hc : next = transferControl
    · have ha : address = 0xFF54 ∨ address = 0xFF56 := by
        rcases hn with hn | hn
        · exact .inl ((UInt16.add_sub_cancel address 1).symm.trans (by rw [← hn, hc]; rfl))
        · exact .inr ((UInt16.sub_add_cancel address 1).symm.trans (by rw [← hn, hc]; rfl))
      rw [hc]
      apply debt_write_transferControl_le ((evolves_write b address value).blockTransfer h)
      rw [stall_write_beside ha, hs]
    · exact Nat.le_trans (debt_write_le hc _ other) (debt_write_any_le h hs address value)
  | serve b b' kept _ ih => exact ih h hs
  | resetDivider b => exact debt_le_of_stall hs h.blocks
  | switchSpeed b => exact debt_le_of_stall hs h.blocks

end DotMatrix.Bus
