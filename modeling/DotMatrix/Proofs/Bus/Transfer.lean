import DotMatrix.Bus.Layout
import DotMatrix.Bus.Write
import DotMatrix.Proofs.Word

/-!
# Transfers and their debt

The block transfer stays on whole blocks of video memory, and what the processor owes for
it is bounded: `debt` counts the cycles owed together with those of the blocks that are
left, and no block that moves makes it larger.
-/
namespace DotMatrix.Bus

/-! ## Addresses of blocks -/

theorem toNat_videoAddress (a : UInt16) : (videoAddress a).toNat = 0x8000 + a.toNat % 0x2000 := by
  have h : a.toNat % 2 ^ 13 < 2 ^ 15 := Nat.lt_trans (Nat.mod_lt _ (by decide)) (by decide)
  rw [videoAddress, UInt16.toNat_or, UInt16.toNat_and]
  change 2 ^ 15 ||| (a.toNat &&& (2 ^ 13 - 1)) = 2 ^ 15 + a.toNat % 2 ^ 13
  rw [Nat.and_two_pow_sub_one_eq_mod]
  exact (Nat.two_pow_add_eq_or_of_lt h 1).symm

theorem and_blockMask (n : Nat) : n &&& 0x1FF0 = n / 16 % 512 * 16 := by
  apply Nat.eq_of_testBit_eq
  intro i
  change (n &&& (2 ^ 9 - 1) * 2 ^ 4).testBit i = (n / 2 ^ 4 % 2 ^ 9 * 2 ^ 4).testBit i
  rw [Nat.testBit_and, Nat.testBit_mul_two_pow, Nat.testBit_mul_two_pow,
    Nat.testBit_two_pow_sub_one, Nat.testBit_mod_two_pow, Nat.testBit_div_two_pow]
  by_cases hi : 4 ≤ i
  · simp only [hi, decide_true, Bool.true_and, Nat.sub_add_cancel hi]
    exact Bool.and_comm _ _
  · simp [hi]

theorem toNat_blockAddress (a : UInt16) :
    (blockAddress a).toNat = 0x8000 + a.toNat / 16 % 512 * 16 := by
  have h : a.toNat / 16 % 512 * 16 < 2 ^ 15 := by omega
  rw [blockAddress, UInt16.toNat_or, UInt16.toNat_and]
  change 2 ^ 15 ||| (a.toNat &&& 0x1FF0) = 2 ^ 15 + _
  rw [and_blockMask]
  exact (Nat.two_pow_add_eq_or_of_lt h 1).symm

theorem blockAddress_eq_self {a : UInt16} (hl : 0x8000 ≤ a.toNat) (hu : a.toNat < 0xA000)
    (hm : a.toNat % 16 = 0) : blockAddress a = a := by
  apply UInt16.toNat_inj.mp
  rw [toNat_blockAddress]
  omega

theorem blockAddress_idem (a : UInt16) : blockAddress (blockAddress a) = blockAddress a := by
  have h := toNat_blockAddress a
  exact blockAddress_eq_self (by omega) (by omega) (by omega)

def nextVideoAddress (a : UInt16) : UInt16 := videoAddress (a + 1)

theorem toNat_nextVideoAddress (a : UInt16) :
    (nextVideoAddress a).toNat = 0x8000 + (a.toNat + 1) % 0x2000 := by
  rw [nextVideoAddress, toNat_videoAddress, UInt16.toNat_add]
  change 0x8000 + (a.toNat + 1) % 0x10000 % 0x2000 = _
  omega

theorem toNat_repeat_nextVideoAddress {a : UInt16} (hl : 0x8000 ≤ a.toNat) (hu : a.toNat < 0xA000)
    (n : Nat) :
    (Nat.repeat nextVideoAddress n a).toNat = 0x8000 + (a.toNat + n) % 0x2000 := by
  induction n with
  | zero =>
    change a.toNat = _
    omega
  | succ n ih =>
    rw [Nat.repeat, toNat_nextVideoAddress, ih]
    omega

/-- A whole block leads from one block to the next. -/
theorem blockAddress_repeat {a : UInt16} (h : blockAddress a = a) :
    blockAddress (Nat.repeat nextVideoAddress blockSize a) = Nat.repeat nextVideoAddress blockSize a := by
  have ha := toNat_blockAddress a
  rw [h] at ha
  have hr := toNat_repeat_nextVideoAddress (by omega) (by omega) blockSize (a := a)
  simp only [blockSize] at hr ⊢
  exact blockAddress_eq_self (by omega) (by omega) (by omega)

/-! ## The parts of a transfer -/

section Parts

variable (b : Bus)

/-- A paced transfer as it begins, before any block has moved. -/
def startPaced (blocks : Nat) : Bus :=
  { b with blockTransfer := { b.blockTransfer with
      blocks, paced := true, active := true, cancelled := false } }

/-- A transfer of all blocks at once as it begins. -/
def startWhole : Bus :=
  { b with blockTransfer := { b.blockTransfer with
      paced := false, active := false, cancelled := false } }

/-- What follows the blocks of a transfer that moved at once: none is left, and the
processor waits for all. -/
def payWhole (blocks : Nat) : Bus :=
  { b with
    blockTransfer := { b.blockTransfer with blocks := 0 }
    stall := b.stall + blocks * b.blockStall }

/-- What follows a block of a paced transfer: there is one less, and a wait more. -/
def countBlock : Bus :=
  let blocks := b.blockTransfer.blocks - 1
  { b with
    blockTransfer := { b.blockTransfer with blocks, active := blocks != 0 }
    stall := b.stall + b.blockStall }

theorem transferAll_eq (blocks : Nat) :
    b.transferAll blocks = (Nat.repeat copyBlock blocks b.startWhole).payWhole blocks := rfl

theorem transferNext_eq : b.transferNext =
    if b.blockTransfer.active && b.blockTransfer.paced then b.copyBlock.countBlock else b := rfl

theorem transferPaced_eq (blocks : Nat) : b.transferPaced blocks =
    if !b.video.enabled || b.video.mode == .hblank then (b.startPaced blocks).transferNext
    else b.startPaced blocks := rfl

end Parts

/-! ## What a copy leaves alone -/

/-- A copy touches video memory and the two addresses only. -/
structure Copied (b b' : Bus) : Prop where
  rest : b' = { b with video := b'.video, blockTransfer := b'.blockTransfer }
  transfer : b'.blockTransfer = { b.blockTransfer with
    source := b'.blockTransfer.source, target := b'.blockTransfer.target }

theorem Copied.refl (b : Bus) : Copied b b := ⟨rfl, rfl⟩

theorem copied_copyByte (b : Bus) : Copied b b.copyByte := ⟨rfl, rfl⟩

theorem Copied.trans {a b c : Bus} (h : Copied a b) (h' : Copied b c) : Copied a c := by
  obtain ⟨hr, ht⟩ := h
  obtain ⟨hr', ht'⟩ := h'
  refine ⟨?_, ?_⟩
  · rw [hr', hr]
  · rw [ht', ht]

theorem copied_repeat {f : Bus → Bus} (hf : ∀ b, Copied b (f b)) (n : Nat) (b : Bus) :
    Copied b (Nat.repeat f n b) := by
  induction n with
  | zero => exact .refl b
  | succ n ih => exact ih.trans (hf _)

theorem copied_copyBlock (b : Bus) : Copied b b.copyBlock := copied_repeat copied_copyByte blockSize b

/-- A paced block also counts itself, and makes the processor wait. -/
theorem transferNext_frame (b : Bus) : b.transferNext =
    { b with
      video := b.transferNext.video
      blockTransfer := b.transferNext.blockTransfer
      stall := b.transferNext.stall } := by
  rw [transferNext_eq]
  split
  · rw [(copied_copyBlock b).rest]
    rfl
  · rfl

theorem target_repeat_copyByte (n : Nat) (b : Bus) :
    (Nat.repeat copyByte n b).blockTransfer.target =
      Nat.repeat nextVideoAddress n b.blockTransfer.target :=
  repeat_map (f := copyByte) (g := fun b => b.blockTransfer.target) (fun _ => rfl) n b

/-! ## The debt -/

def blocksDue (t : BlockTransfer) : Nat := if t.active && t.paced then max 1 t.blocks else 0

/-- Cycles owed, with those of the blocks that are left at the price of double speed. -/
def debt (b : Bus) : Nat := b.stall + 64 * blocksDue b.blockTransfer

theorem stall_le_debt (b : Bus) : b.stall ≤ b.debt := Nat.le_add_right _ _

theorem blockStall_le (b : Bus) : b.blockStall ≤ 64 := by
  rw [blockStall]
  split <;> omega

theorem debt_transferNext_le (b : Bus) : b.transferNext.debt ≤ b.debt := by
  rw [transferNext_eq]
  split
  · rename_i ha
    have hs := blockStall_le b.copyBlock
    obtain ⟨hr, ht⟩ := copied_copyBlock b
    have hstall : b.copyBlock.stall = b.stall := by rw [hr]
    have hblocks : b.copyBlock.blockTransfer.blocks = b.blockTransfer.blocks := by rw [ht]
    simp only [debt, countBlock, blocksDue, ha, hstall, hblocks, ite_true]
    split
    · rename_i hn
      simp only [Bool.and_eq_true, bne_iff_ne] at hn
      omega
    · omega
  · exact Nat.le_refl _

theorem debt_repeat_transferNext_le (n : Nat) (b : Bus) :
    (Nat.repeat transferNext n b).debt ≤ b.debt := by
  induction n with
  | zero => exact Nat.le_refl _
  | succ n ih => exact Nat.le_trans (debt_transferNext_le _) ih

end DotMatrix.Bus
