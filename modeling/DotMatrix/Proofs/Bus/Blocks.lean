import DotMatrix.Proofs.Bus.Memory

/-!
# Blocks

What a block is copied from and where to is a small part of the bus. `Pacing` is a transfer of
which some blocks have moved: that part is as if they had been copied at once, and they have
been counted and charged.
-/
namespace DotMatrix

theorem Video.cells_writeVram {v v' : Video} (h : v'.cells = v.cells) (address : UInt16)
    (value : UInt8) : (v'.writeVram address value).cells = (v.writeVram address value).cells := by
  simp only [cells, Cells.mk.injEq] at h
  obtain ⟨h0, h1, hsecond, hoam⟩ := h
  rw [writeVram, writeVram, hsecond]
  split <;> simp only [cells, h0, h1, hoam]

namespace Bus

variable {b b' r : Bus} {n k paid : Nat}

/-! ## What a block is copied from, and where to -/

/-- All that has a part in the copying of a block. -/
structure Depot where
  content : Content
  cells : Video.Cells
  source : UInt16
  target : UInt16

def depot (b : Bus) : Depot where
  content := b.content
  cells := b.video.cells
  source := b.blockTransfer.source
  target := b.blockTransfer.target

theorem depot_copyByte (h : b'.depot = b.depot) (hs : b.blockTransfer.source < echo) :
    b'.copyByte.depot = b.copyByte.depot := by
  simp only [depot, Depot.mk.injEq] at h
  obtain ⟨hcontent, hcells, hsource, htarget⟩ := h
  have hbyte : b'.readUnlocked b'.blockTransfer.source = b.readUnlocked b.blockTransfer.source := by
    rw [hsource, readUnlocked_of_content hcontent hs]
  have hwritten : b'.copyByte.video.cells = b.copyByte.video.cells := by
    rw [copyByte, copyByte, hbyte, htarget]
    exact Video.cells_writeVram hcells _ _
  have hread := Video.readVram_of_cells hwritten
  simp only [content, Content.mk.injEq] at hcontent
  obtain ⟨hrom, -, hram, hwork, hbank⟩ := hcontent
  simp only [depot, hwritten, Depot.mk.injEq, true_and]
  refine ⟨?_, congrArg (· + 1) hsource, congrArg nextVideoAddress htarget⟩
  simp only [content, hread, Content.mk.injEq, true_and]
  exact ⟨hrom, hram, hwork, hbank⟩

theorem source_repeat_copyByte (n : Nat) (b : Bus) :
    (Nat.repeat copyByte n b).blockTransfer.source = b.blockTransfer.source + UInt16.ofNat n := by
  induction n with
  | zero => exact (UInt16.add_zero _).symm
  | succ n ih =>
    change (Nat.repeat copyByte n b).blockTransfer.source + 1 = _
    rw [ih, UInt16.ofNat_add, ← UInt16.add_assoc]
    rfl

theorem toNat_source_repeat_copyByte (h : b.blockTransfer.source.toNat + n < 0x10000) :
    (Nat.repeat copyByte n b).blockTransfer.source.toNat = b.blockTransfer.source.toNat + n := by
  have hn : n < 0x10000 := by omega
  rw [source_repeat_copyByte, UInt16.toNat_add, UInt16.toNat_ofNat_of_lt' hn]
  exact Nat.mod_eq_of_lt h

theorem depot_repeat_copyByte (h : b'.depot = b.depot)
    (hs : b.blockTransfer.source.toNat + n ≤ 0xE000) :
    (Nat.repeat copyByte n b').depot = (Nat.repeat copyByte n b).depot := by
  induction n with
  | zero => exact h
  | succ n ih =>
    refine depot_copyByte (ih (by omega)) ?_
    rw [UInt16.lt_iff_toNat_lt, toNat_source_repeat_copyByte (by omega)]
    change _ < 0xE000
    omega

def copyBlocks (count : Nat) (b : Bus) : Bus := Nat.repeat copyBlock count b

theorem copyBlocks_eq (count : Nat) (b : Bus) :
    b.copyBlocks count = Nat.repeat copyByte (blockSize * count) b := by
  induction count with
  | zero => rw [copyBlocks, Nat.mul_zero, Nat.repeat, Nat.repeat]
  | succ count ih =>
    rw [Nat.mul_succ, repeat_add, ← ih, copyBlocks, Nat.repeat, copyBlock, copyBlocks]

theorem depot_copyBlock (h : r.depot = (b.copyBlocks k).depot)
    (hs : b.blockTransfer.source.toNat + 16 * (k + 1) ≤ 0xE000) :
    r.copyBlock.depot = (b.copyBlocks (k + 1)).depot := by
  have hsize : blockSize = 16 := rfl
  have hsource : (b.copyBlocks k).blockTransfer.source.toNat =
      b.blockTransfer.source.toNat + blockSize * k := by
    rw [copyBlocks_eq, toNat_source_repeat_copyByte (by rw [hsize]; omega)]
  have hroom : (b.copyBlocks k).blockTransfer.source.toNat + blockSize ≤ 0xE000 := by
    rw [hsource, hsize]
    omega
  rw [copyBlocks, Nat.repeat, ← copyBlocks, copyBlock, copyBlock]
  exact depot_repeat_copyByte h hroom

/-! ## Blocks that have moved -/

/-- So many blocks have moved, and so much has been paid of what they cost. -/
structure Moved (b : Bus) (k paid : Nat) (r : Bus) : Prop where
  depot : r.depot = (b.copyBlocks k).depot
  stall : paid + r.stall = b.stall + k * b.blockStall
  cgb : r.cgb = b.cgb
  speed : r.doubleSpeed = b.doubleSpeed
  objects : r.objectTransfer = b.objectTransfer

/-- A paced transfer of `n` blocks, of which `k` have moved. -/
structure Pacing (b : Bus) (n k paid : Nat) (r : Bus) : Prop extends Moved b k paid r where
  le : k ≤ n
  blocks : r.blockTransfer.blocks = n - k
  paced : r.blockTransfer.paced = true
  active : r.blockTransfer.active = decide (k < n)

theorem Moved.blockStall (h : Moved b k paid r) : r.blockStall = b.blockStall := by
  rw [Bus.blockStall, Bus.blockStall, h.speed]

/-- What touches neither the transfer nor what it reads. -/
theorem Pacing.beside (h : Pacing b n k paid r) {r' : Bus} (hd : r'.depot = r.depot)
    (hb : r'.blockTransfer = r.blockTransfer) (hs : r'.stall = r.stall) (hc : r'.cgb = r.cgb)
    (hv : r'.doubleSpeed = r.doubleSpeed) (ho : r'.objectTransfer = r.objectTransfer) :
    Pacing b n k paid r' where
  depot := hd.trans h.depot
  stall := hs ▸ h.stall
  cgb := hc.trans h.cgb
  speed := hv.trans h.speed
  objects := ho.trans h.objects
  le := h.le
  blocks := hb ▸ h.blocks
  paced := hb ▸ h.paced
  active := hb ▸ h.active

/-- A block that has been copied is counted and charged. -/
theorem Pacing.countBlock (h : Pacing b n k paid r) (hk : k < n) {copied : Bus}
    (hc : Copied r copied) (hd : copied.depot = (b.copyBlocks (k + 1)).depot) :
    Pacing b n (k + 1) paid copied.countBlock := by
  obtain ⟨hr, ht⟩ := hc
  have hstall : copied.stall = r.stall := by rw [hr]
  have hspeed : copied.doubleSpeed = r.doubleSpeed := by rw [hr]
  have hblocks : copied.blockTransfer.blocks = n - k := by rw [ht, h.blocks]
  have hprice : copied.blockStall = b.blockStall := by
    rw [blockStall, hspeed, ← blockStall, h.blockStall]
  have hleft : n - k - 1 = n - (k + 1) := by omega
  refine ⟨⟨hd, ?_, ?_, hspeed.trans h.speed, ?_⟩, hk, ?_, ?_, ?_⟩
  · change paid + (copied.stall + copied.blockStall) = _
    rw [hstall, hprice, ← Nat.add_assoc, h.stall, Nat.succ_mul, Nat.add_assoc]
  · change copied.cgb = _
    rw [hr, h.cgb]
  · change copied.objectTransfer = _
    rw [hr, h.objects]
  · change copied.blockTransfer.blocks - 1 = _
    rw [hblocks, hleft]
  · change copied.blockTransfer.paced = true
    rw [ht, h.paced]
  · change (copied.blockTransfer.blocks - 1 != 0) = _
    rw [hblocks, hleft, Bool.eq_iff_iff, bne_iff_ne, decide_eq_true_iff]
    omega

variable (hs : b.blockTransfer.source.toNat + 16 * n ≤ 0xE000)

include hs in
theorem Pacing.transferNext (h : Pacing b n k paid r) (hk : k < n) :
    Pacing b n (k + 1) paid r.transferNext := by
  have hon : (r.blockTransfer.active && r.blockTransfer.paced) = true := by
    rw [h.active, h.paced, decide_eq_true hk]
    rfl
  rw [transferNext_eq, if_pos hon]
  exact h.countBlock hk (copied_copyBlock r) (depot_copyBlock h.depot (by omega))

include hs in
/-- Blocks move until none is left. -/
theorem Pacing.repeat_transferNext (h : Pacing b n k paid r) (count : Nat) :
    Pacing b n (min n (k + count)) paid (Nat.repeat Bus.transferNext count r) := by
  induction count with
  | zero =>
    rw [Nat.add_zero, Nat.min_eq_right h.le]
    exact h
  | succ count ih =>
    by_cases hk : k + count < n
    · have hnext : min n (k + (count + 1)) = min n (k + count) + 1 := by omega
      rw [hnext]
      exact ih.transferNext hs (by omega)
    · have hdone : min n (k + (count + 1)) = min n (k + count) := by omega
      have hoff : (Nat.repeat Bus.transferNext count r).Unpaced := by
        rw [Unpaced, ih.active, decide_eq_false (by omega)]
        rfl
      rw [hdone, Nat.repeat, transferNext_of_unpaced hoff]
      exact ih

include hs in
theorem Pacing.transferRest (h : Pacing b n k paid r) : Pacing b n n paid r.transferRest := by
  have hall := h.repeat_transferNext hs (r.blockTransfer.blocks + 1)
  have hle := h.le
  rw [h.blocks, Nat.min_eq_left (by omega), ← h.blocks] at hall
  exact hall

end Bus

end DotMatrix
