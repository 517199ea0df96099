import DotMatrix.Bus.Layout
import DotMatrix.Proofs.Bus.Range

/-!
# The bus in a snapshot

The interrupt registers and the memory section give back what stands in them, and
whatever a section holds is brought into range when it is read.
-/
namespace DotMatrix.Bus

open Snapshot Snapshot.Layout

variable {b b₀ : Bus}

/-! ## The interrupt registers -/

@[simp] theorem length_write_interruptLayout (b : Bus) :
    (interruptLayout.write b).length = 2 := by
  simp [interruptLayout]

theorem restores_interruptLayout (h : b.InRange) : interruptLayout.Restores b b₀
    { b₀ with requests := b.requests, enables := b.enables } := by
  apply Restores.congr
  · exact restores_cons restores_byte <| restores_cons restores_byte restores_nil
  · rw [h.requests.and_lines, h.enables.and_lines]

theorem reads_interruptLayout (b : Bus) : interruptLayout.Reads 2 b fun b' =>
    Interrupt.OnLines b'.requests ∧ Interrupt.OnLines b'.enables ∧
      b' = { b with requests := b'.requests, enables := b'.enables } := by
  apply reads_cons_byte; intro requests
  apply reads_cons_byte; intro enables
  apply reads_nil
  exact ⟨Interrupt.onLines_and_lines requests, Interrupt.onLines_and_lines enables, rfl⟩

/-! ## The transfers -/

@[simp] theorem ObjectTransfer.length_write_layout (t : ObjectTransfer) :
    (ObjectTransfer.layout.write t).length = 13 := by
  simp [ObjectTransfer.layout]

theorem ObjectTransfer.restores_layout {t : ObjectTransfer} (h : t.InRange)
    (t₀ : ObjectTransfer) : ObjectTransfer.layout.Restores t t₀ t := by
  have hremaining : t.remaining < byteSpan 4 := lt_byteSpan_of_le h.remaining
  have hdelay : t.delay < byteSpan 4 := lt_byteSpan_of_le h.delay
  have hpending : ∀ v ∈ t.pending?.map UInt16.toNat, v < byteSpan 2 := by
    intro v hv
    obtain ⟨p, _, rfl⟩ := Option.map_eq_some_iff.mp hv
    exact p.toNat_lt
  apply Restores.congr
  · exact restores_cons restores_half <|
      restores_cons (restores_number hremaining) <| restores_cons (restores_optional hpending) <|
      restores_cons (restores_number hdelay) restores_nil
  · have hsource : (t.pending?.map UInt16.toNat).map UInt16.ofNat = t.pending? := by
      cases t.pending? <;> simp
    simp only [hsource, Nat.min_eq_left h.remaining, Nat.min_eq_left h.delay]

theorem ObjectTransfer.reads_layout (t : ObjectTransfer) :
    ObjectTransfer.layout.Reads 13 t ObjectTransfer.InRange := by
  apply reads_cons_half; intro _
  apply reads_cons_number; intro remaining _
  apply reads_cons_optional; intro _ _
  apply reads_cons_number; intro delay _
  apply reads_nil
  exact ⟨Nat.min_le_right _ _, Nat.min_le_right _ _⟩

@[simp] theorem BlockTransfer.length_write_layout (t : BlockTransfer) :
    (BlockTransfer.layout.write t).length = 8 := by
  simp [BlockTransfer.layout]

theorem BlockTransfer.restores_layout {t : BlockTransfer} (h : t.InRange) (t₀ : BlockTransfer) :
    BlockTransfer.layout.Restores t t₀ t := by
  have hblocks : t.blocks < byteSpan 1 := lt_byteSpan_of_le h.blocks
  apply Restores.congr
  · exact restores_cons restores_half <| restores_cons restores_half <|
      restores_cons (restores_number hblocks) <| restores_cons restores_flag <|
      restores_cons restores_flag <| restores_cons restores_flag restores_nil
  · simp only [h.target, Nat.min_eq_left h.blocks]

theorem BlockTransfer.reads_layout (t : BlockTransfer) :
    BlockTransfer.layout.Reads 8 t BlockTransfer.InRange := by
  apply reads_cons_half; intro _
  apply reads_cons_half; intro target
  apply reads_cons_number; intro blocks _
  apply reads_cons_flag; intro _
  apply reads_cons_flag; intro _
  apply reads_cons_flag; intro _
  apply reads_nil
  exact ⟨blockAddress_idem target, Nat.min_le_right _ _⟩

/-! ## The memory section -/

def memorySize : Nat := 32925

@[simp] theorem length_write_memoryLayout (b : Bus) :
    (memoryLayout.write b).length = memorySize := by
  have hwork : ((block (fun b : Bus => b.workRam) fun b m => { b with workRam := m }).write b).length
      = 32768 := length_write_block
  have hhigh : ((block (fun b : Bus => b.highRam) fun b m => { b with highRam := m }).write b).length
      = 127 := length_write_block
  simp [memoryLayout, memorySize, hwork, hhigh]

theorem speedByte_lt (b : Bus) : b.speedByte < byteSpan 1 := by
  rw [speedByte]
  cases b.doubleSpeed <;> cases b.speedArmed <;> decide

theorem speedByte_bits (b : Bus) :
    (b.speedByte / 0x80 % 2 != 0) = b.doubleSpeed ∧ (b.speedByte % 2 != 0) = b.speedArmed := by
  rw [speedByte]
  cases b.doubleSpeed <;> cases b.speedArmed <;> decide

/-- The memory section gives back all that stands in it. A boot ROM is not part of it, and
has to be there already. -/
theorem restores_memoryLayout (h : b.InRange) (hs : b.stall ≤ maxStall)
    (hrom : b₀.bootRom? = b.bootRom?) : memoryLayout.Restores b b₀ { b₀ with
      workRam := b.workRam
      workBank := b.workBank
      highRam := b.highRam
      bootMapped := b.bootMapped
      objectTransfer := b.objectTransfer
      blockTransfer := b.blockTransfer
      doubleSpeed := b.doubleSpeed
      speedArmed := b.speedArmed
      stall := b.stall
      joypad := b.joypad } := by
  obtain ⟨hlow, hhigh⟩ := h.workBank
  have hbank : b.workBank < byteSpan 1 := lt_byteSpan hhigh
  have hstall : b.stall < byteSpan 4 := lt_byteSpan_of_le hs
  have hpresent : (!b.bootMapped || b₀.bootRom?.isSome) = true := hrom ▸ h.bootRom
  obtain ⟨hdouble, harmed⟩ := b.speedByte_bits
  apply Restores.congr
  · exact restores_cons restores_block <|
      restores_cons (restores_number hbank) <| restores_cons restores_block <|
      restores_cons restores_flag <| restores_cons (restores_require hpresent) <|
      restores_cons (restores_part (ObjectTransfer.restores_layout h.objectTransfer _)) <|
      restores_cons (restores_part (BlockTransfer.restores_layout h.blockTransfer _)) <|
      restores_cons (restores_number b.speedByte_lt) <| restores_cons (restores_number hstall) <|
      restores_cons (restores_part (Joypad.restores_layout h.joypad _)) restores_nil
  · simp only [hdouble, harmed, Nat.mod_eq_of_lt hhigh, Nat.max_eq_right hlow, Nat.min_eq_left hs]

/-- What the memory section brings into range. -/
structure MemoryRead (b b' : Bus) : Prop where
  maintains : Maintains b b'
  joypad : b'.joypad.InRange
  bootRom : b'.bootRomPresent = true
  workBank : 1 ≤ b'.workBank ∧ b'.workBank < 8
  blockTransfer : b'.blockTransfer.InRange
  objectTransfer : b'.objectTransfer.InRange
  stall : b'.stall ≤ maxStall
  sound : b'.sound = b.sound
  timer : b'.timer = b.timer

theorem reads_memoryLayout (b : Bus) : memoryLayout.Reads memorySize b (MemoryRead b) := by
  apply reads_cons_block; intro _
  apply reads_cons_number; intro bank _
  apply reads_cons_block; intro _
  apply reads_cons_flag; intro _
  apply reads_cons_require; intro hrom
  apply reads_cons (n := 13)
  apply reads_part
  apply (ObjectTransfer.reads_layout _).imp
  intro objects hobjects
  apply reads_cons (n := 8)
  apply reads_part
  apply (BlockTransfer.reads_layout _).imp
  intro blocks hblocks
  apply reads_cons_number; intro _ _
  apply reads_cons_number; intro stall _
  apply reads_cons (n := 2)
  apply reads_part
  apply (Joypad.reads_layout _).imp
  intro joypad hjoypad
  apply reads_nil
  have hbank : 1 ≤ max 1 (bank % 8) ∧ max 1 (bank % 8) < 8 := by omega
  refine ⟨?_, hjoypad, hrom, hbank, hblocks, hobjects, Nat.min_le_right _ _, rfl, rfl⟩
  exact { Maintains.refl b with
    joypad := fun _ => hjoypad
    bootRom := fun _ => hrom
    workBank := fun _ => hbank
    blockTransfer := fun _ => hblocks
    objectTransfer := fun _ => hobjects }

end DotMatrix.Bus
