import DotMatrix.Proofs.Video.Snapshot
import DotMatrix.Proofs.Video.Status
import DotMatrix.Proofs.Video.UnitWords

/-!
# Running what was accepted

A section that is accepted may hold sprites at places where no object can be. Whatever is
written to the unit afterwards and however many dots pass, nothing is looked up or kept
outside of its memory and no number leaves its word, as long as the line that was in transfer
in the section has no such sprite out of reach. Every later line is scanned first.
-/
namespace DotMatrix.Video

open Snapshot Width

variable {v w w' : Video} {r : Run}

/-! ## Calls in words -/

namespace Call

def applyInWords (v : Video) : Call → Option Run
  | advance dots flags => v.advanceInWords dots flags
  | write address value flags => do
    let (video, flags) ← v.writeInWords address value flags
    return { video, flags }
  | writeVram address value => do
    let video ← v.writeVramInWords address value
    return { video, flags := 0 }
  | setMemory vram0 vram1 oam => some { video := { v with vram0, vram1, oam }, flags := 0 }

/-- The call comes to the end of a transfer in whose line a sprite strays. -/
def Strays (v : Video) : Call → Prop
  | advance dots _ =>
    v.enabled = true ∧ v.mode = .transfer ∧ v.modeDots ≤ v.clock + dots ∧ v.Astray
  | _ => False

instance (v : Video) (c : Call) : Decidable (c.Strays v) :=
  match c with
  | advance .. => inferInstanceAs (Decidable (_ ∧ _))
  | write .. => inferInstanceAs (Decidable False)
  | writeVram .. => inferInstanceAs (Decidable False)
  | setMemory .. => inferInstanceAs (Decidable False)

theorem applyInWords_eq (h : v.Placed) (c : Call) :
    c.applyInWords v = if c.Strays v then none else some (c.apply v) := by
  cases c with
  | advance dots flags => exact advanceInWords_eq h dots flags
  | write address value flags =>
    rw [applyInWords, writeInWords_eq]
    exact (if_neg id).symm
  | writeVram address value =>
    rw [applyInWords, writeVramInWords_eq]
    exact (if_neg id).symm
  | setMemory vram0 vram1 oam => exact (if_neg id).symm

end Call

def runInWords (calls : List Call) (v : Video) : Option Video :=
  calls.foldlM (fun v c => (c.applyInWords v).map (·.video)) v

theorem runInWords_cons (h : v.Placed) (c : Call) (calls : List Call) :
    v.runInWords (c :: calls) =
      if c.Strays v then none else (c.apply v).video.runInWords calls := by
  rw [runInWords, List.foldlM_cons, c.applyInWords_eq h]
  split <;> rfl

/-! ## Writes -/

/-- What a write makes of the place of a unit: it stays, or the frame starts again. -/
inductive Rewinds (v w : Video) : Prop
  | stays (place : w.raster = v.raster) (enabled : w.enabled = v.enabled)
  | restarts (mode : Mode) (early : mode = .hblank ∨ mode = .scan)
      (place : w.raster = { v.raster with mode, line := 0, clock := 0 })

theorem raster_compareLine (v : Video) : v.compareLine.raster = v.raster := by
  rw [compareLine]
  split <;> rfl

theorem rewinds_writeControl (v : Video) (value flags : UInt8) :
    Rewinds v (v.writeControl value flags).1 := by
  simp only [writeControl]
  cases he : v.enabled with
  | true =>
    cases hn : enabled { v with lcdc := value } with
    | true => exact .stays rfl (hn.trans he.symm)
    | false => exact .restarts .hblank (.inl rfl) rfl
  | false =>
    cases hn : enabled { v with lcdc := value } with
    | true => exact .restarts .scan (.inr rfl) (raster_compareLine _)
    | false => exact .stays rfl (hn.trans he.symm)

theorem rewinds_write (v : Video) (address : UInt16) (value flags : UInt8) :
    Rewinds v (v.write address value flags).1 := by
  rw [write]
  split
  case h_1 => exact rewinds_writeControl v value flags
  case h_5 => exact .stays (raster_compareLine _) (congrArg Outline.enabled (outline_compareLine _))
  case h_12 =>
    dsimp only
    split
    · rw [writeColor]
      split <;> exact .stays rfl rfl
    · exact .stays rfl rfl
  all_goals exact .stays rfl rfl

theorem lineup_compareLine (v : Video) : v.compareLine.lineup = v.lineup := by
  rw [compareLine]
  split <;> rfl

theorem lineup_write (v : Video) (address : UInt16) (value flags : UInt8) :
    (v.write address value flags).1.lineup = v.lineup := by
  rw [write]
  split
  case h_1 =>
    simp only [writeControl]
    split
    · rfl
    split
    · exact lineup_compareLine _
    · rfl
  case h_5 => exact lineup_compareLine _
  case h_12 =>
    dsimp only
    split
    · rw [writeColor]
      split <;> rfl
    · rfl
  all_goals rfl

/-! ## What follows -/

/-- The line that is in transfer is the one that was in transfer in `v`. -/
structure Continues (v w : Video) : Prop where
  mode : v.mode = .transfer
  enabled : w.enabled = v.enabled
  line : w.ly = v.ly
  sprites : w.lineSprites = v.lineSprites

/-- A unit after `v`: it is at a place of its frame, and if a line is in transfer, its sprites
were scanned or are those of the line that was in transfer in `v`. -/
structure Follows (v w : Video) : Prop where
  placed : w.Placed
  transfer : w.mode = .transfer → w.Scanned ∨ Continues v w

theorem Placed.follows (h : v.Placed) : Follows v v := ⟨h, fun hm => .inr ⟨hm, rfl, rfl, rfl⟩⟩

theorem lineSprites_of_lineup (h : w'.lineup = w.lineup) : w'.lineSprites = w.lineSprites := by
  obtain ⟨hcount, hslots⟩ := Prod.mk.inj h
  rw [lineSprites, lineSprites, hcount, hslots]

namespace Follows

theorem of_raster (h : Follows v w) (hr : w'.raster = w.raster) (he : w'.enabled = w.enabled)
    (hl : w'.lineup = w.lineup) : Follows v w' := by
  refine ⟨h.placed.of_lineup (hr ▸ h.placed.raster) hl, fun hm => ?_⟩
  have hmode : w'.mode = w.mode := congrArg Raster.mode hr
  rcases h.transfer (hmode ▸ hm) with hs | hc
  · exact .inl (scanned_of_lineup hl hs)
  · exact .inr ⟨hc.mode, he.trans hc.enabled, (congrArg Raster.line hr).trans hc.line,
      (lineSprites_of_lineup hl).trans hc.sprites⟩

theorem write (h : Follows v w) (address : UInt16) (value flags : UInt8) :
    Follows v (w.write address value flags).1 := by
  have hl := lineup_write w address value flags
  cases rewinds_write w address value flags with
  | stays hr he => exact h.of_raster hr he hl
  | restarts mode early hr =>
    have hmode : (w.write address value flags).1.mode = mode := congrArg Raster.mode hr
    have hp := h.placed.raster
    have hd : 0 < Raster.modeDots { w.raster with mode, line := 0, clock := 0 } :=
      Raster.modeDots_pos hp.transferMin hp.transferMax
    refine ⟨h.placed.of_lineup (hr ▸ ⟨Nat.zero_le _, ⟨nofun, fun hb => ?_⟩, hd, hp.transferMin,
      hp.transferMax⟩) hl, fun hm => ?_⟩
    · rcases early with rfl | rfl <;> cases hb
    · rw [hmode] at hm
      rcases early with rfl | rfl <;> cases hm

theorem tick (h : Follows v r.video) : Follows v r.tick.video := by
  refine ⟨h.placed.tick, ?_⟩
  rw [tick_eq]
  split
  · exact fun hm => (h.transfer hm).imp id fun hc => ⟨hc.mode, hc.enabled, hc.line, hc.sprites⟩
  · exact fun hm => .inl (scanned_of_mode_eq_transfer hm)

theorem advance (h : Follows v w) (dots : Nat) (flags : UInt8) :
    Follows v (w.advance dots flags).video := by
  rw [Video.advance]
  split
  · exact repeat_invariant (P := fun r : Run => Follows v r.video) (fun _ => tick) dots h
  · exact h

theorem apply (h : Follows v w) (c : Call) : Follows v (c.apply w).video := by
  cases c with
  | advance dots flags => exact h.advance dots flags
  | write address value flags => exact h.write address value flags
  | writeVram address value =>
    rw [Call.apply, writeVram]
    dsimp only
    split <;> exact h.of_raster rfl rfl rfl
  | setMemory vram0 vram1 oam => exact h.of_raster rfl rfl rfl

theorem afterAll (h : Follows v w) (calls : List Call) : Follows v (w.afterAll calls) := by
  induction calls generalizing w with
  | nil => exact h
  | cons c calls ih => exact ih (h.apply c)

/-- Only in the line that was in transfer a sprite can stray. -/
theorem continues (h : Follows v w) {c : Call} (hs : c.Strays w) : Continues v w := by
  cases c with
  | advance dots flags =>
    obtain ⟨-, hm, -, hastray⟩ := hs
    exact (h.transfer hm).resolve_left fun hscan =>
      hscan.not_astray h.placed.raster.line hastray
  | write => exact hs.elim
  | writeVram => exact hs.elim
  | setMemory => exact hs.elim

end Follows

/-! ## Reach -/

/-- The rows and the columns of a sprite are told by words on a line, whatever the height of
the sprites is. -/
def Sprite.InReach (s : Sprite) (line : Nat) : Prop :=
  line - s.y < 0x8000 ∧ (s.y ≤ line → line < s.y + 16 → s.x + 7 < 0x8000)

/-- If a line is in transfer, its sprites are in reach. -/
def InReach (v : Video) : Prop :=
  v.enabled = true → v.mode = .transfer → ∀ s ∈ v.lineSprites, s.InReach v.ly

theorem InReach.not_strays (hv : v.InReach) (h : Follows v w) (c : Call) : ¬c.Strays w := by
  intro hs
  obtain ⟨hm, he, hly, hsprites⟩ := h.continues hs
  cases c with
  | advance dots flags =>
    obtain ⟨hon, -, -, -, s, hmem, hstrays⟩ := hs
    obtain ⟨hrow, hcolumn⟩ := hv (he ▸ hon) hm s (hsprites ▸ hmem)
    have hheight := w.spriteHeight_bounds
    rcases hstrays with hfar | ⟨hoverlaps, hfar⟩
    · rw [hly] at hfar
      omega
    · obtain ⟨h₀, h₁⟩ := overlaps_iff.mp hoverlaps
      rw [hly] at h₀ h₁
      have := hcolumn (by omega) (by omega)
      omega
  | write => exact hs
  | writeVram => exact hs
  | setMemory => exact hs

theorem InReach.runInWords (hv : v.InReach) (h : Follows v w) (calls : List Call) :
    w.runInWords calls = some (w.afterAll calls) := by
  induction calls generalizing w with
  | nil => rfl
  | cons c calls ih =>
    rw [runInWords_cons h.placed, if_neg (hv.not_strays h c)]
    exact ih (h.apply c)

/-- Tall sprites are switched on, and the transfer is left to end. -/
def endTransfer (v : Video) : List Call := [.write 0xFF40 0x86 0, .advance v.modeDots 0]

/-- A sprite out of reach strays at the end of the transfer, if the sprites are tall. -/
theorem runInWords_endTransfer (h : v.Placed) (hv : ¬v.InReach) :
    v.runInWords v.endTransfer = none := by
  simp only [InReach, Classical.not_imp, not_forall] at hv
  obtain ⟨he, hm, s, hs, hreach⟩ := hv
  have hon : hasBit 0x86 0x80 = true := by decide
  have htall : hasBit 0x86 0x04 = true := by decide
  have hdrawn : hasBit 0x86 0x02 = true := by decide
  have hw : ((Call.write 0xFF40 0x86 0).apply v).video = { v with lcdc := 0x86 } := by
    have hn : enabled { v with lcdc := 0x86 } = true := hon
    change (v.writeControl 0x86 0).1 = _
    simp only [writeControl, he, hn]
    rfl
  have hplaced : Placed { v with lcdc := 0x86 } := h.of_lineup h.raster rfl
  have hstrays : (Call.advance v.modeDots 0).Strays { v with lcdc := 0x86 } := by
    refine ⟨hon, hm, Nat.le_add_left _ _, hdrawn, s, hs, ?_⟩
    have hheight : spriteHeight { v with lcdc := 0x86 } = 16 := by
      rw [spriteHeight, if_pos htall]
    rw [Video.Strays, overlaps_iff, hheight]
    change 0x8000 ≤ v.ly - s.y ∨ (0 ≤ v.ly - s.y ∧ v.ly - s.y < 16) ∧ 0x8000 ≤ s.x + 7
    rw [Sprite.InReach] at hreach
    omega
  have hwrite : ¬(Call.write 0xFF40 0x86 0).Strays v := id
  rw [endTransfer, runInWords_cons h, if_neg hwrite, hw, runInWords_cons hplaced, if_pos hstrays]

/-! ## Accepted sections -/

/-- Whatever is accepted is at a place of its frame, and its slots are whole. -/
theorem placed_of_read {bytes rest : Bytes} {v₀ : Video}
    (h : layout.read bytes v₀ = (v, .ok rest)) : v.Placed := by
  obtain ⟨-, ⟨hc, hposition, hline⟩, -⟩ := reads_section v₀ bytes v rest h
  obtain ⟨hly, hclock⟩ := positionInRange_iff.mp hposition
  exact ⟨⟨hly, modeMatchesLine_iff.mp hline, hclock, hc.transferMin, hc.transferMax⟩,
    hc.spriteCount, hc.slots_length, hc.slots⟩

/-- An accepted section is safe to run with every sequence of calls exactly if the sprites of
its line in transfer are in reach. Whichever they are, the line register stays in the frame,
and each call does in words what it does, unless it comes to the end of that one transfer
while a sprite of the section strays. -/
theorem safe_iff_inReach {bytes rest : Bytes} {v₀ : Video}
    (h : layout.read bytes v₀ = (v, .ok rest)) :
    ((∀ calls, v.runInWords calls = some (v.afterAll calls)) ↔ v.InReach) ∧
      ∀ (calls : List Call) (c : Call), (v.afterAll calls).ly ≤ lastLine ∧
        c.applyInWords (v.afterAll calls) =
          (if c.Strays (v.afterAll calls) then none else some (c.apply (v.afterAll calls))) ∧
        (c.Strays (v.afterAll calls) → v.Continues (v.afterAll calls)) := by
  have hplaced := placed_of_read h
  refine ⟨⟨fun hsafe => ?_, fun hreach calls => hreach.runInWords hplaced.follows calls⟩,
    fun calls c => ?_⟩
  · by_contra hreach
    have hnone := runInWords_endTransfer hplaced hreach
    rw [hsafe] at hnone
    cases hnone
  · have hfollows := hplaced.follows.afterAll calls
    exact ⟨hfollows.placed.raster.line, c.applyInWords_eq hfollows.placed, hfollows.continues⟩

/-- The top line is in transfer, and its only sprite is as far above it as a word can tell. -/
def straying : Video where
  cgb := false
  colorOutput := false
  lcdc := 0x82
  mode := .transfer
  slots := { y := -0x8000 } :: List.replicate 9 {}
  spriteCount := 1

theorem inRange_straying : straying.InRange := by
  have hslots : ∀ s ∈ straying.slots, s.Storable := by
    intro s hs
    rcases List.mem_cons.mp hs with rfl | hs
    · exact ⟨⟨by decide, by decide⟩, by decide, by decide⟩
    · rw [List.eq_of_mem_replicate hs]
      exact ⟨⟨by decide, by decide⟩, by decide, by decide⟩
  have hc : straying.content.InRange :=
    ⟨nofun, Nat.le_refl _, by decide, by decide, rfl, hslots, Memory.all_fill (by decide)⟩
  exact hc.enter rfl rfl (Nat.zero_le _) ⟨nofun, nofun⟩

/-- Its section is accepted by a new unit, and is not safe to run. -/
theorem safe_iff_inReach_straying : ∃ (bytes : Bytes) (v : Video),
    layout.read bytes { cgb := false, colorOutput := false } = (v, .ok []) ∧
      ¬∀ calls, v.runInWords calls = some (v.afterAll calls) := by
  have hread := restores_layout inRange_straying { cgb := false, colorOutput := false } []
  refine ⟨_, _, hread, fun hsafe => ?_⟩
  have hreach := (safe_iff_inReach hread).1.mp hsafe (by decide) rfl { y := -0x8000 } (.head _)
  exact absurd hreach.1 (by decide)

end DotMatrix.Video
