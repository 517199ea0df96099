import DotMatrix.Proofs.Bus.Blocks
import DotMatrix.Proofs.Bus.Objects
import DotMatrix.Proofs.Video.Blanks

/-!
# The ways of a block transfer

A block transfer may move its blocks at once, one at each horizontal blank, or in both ways if
the screen goes off. Every way copies the same blocks one after the other, and what passes
between two of them touches nothing that a block is copied from. So the ways differ in the
time that they take, and in nothing else.
-/
namespace DotMatrix.Bus

variable {b r : Bus} {n k paid : Nat}

variable (hs : b.blockTransfer.source.toNat + 16 * n ≤ 0xE000)

/-! ## Time -/

theorem blind_copyBlock (r : Bus) : r.copyBlock.video.blind = r.video.blind :=
  repeat_unchanged (g := fun r : Bus => r.video.blind)
    (fun r => Video.blind_writeVram r.video _ _) blockSize r

theorem blind_transferNext (r : Bus) : r.transferNext.video.blind = r.video.blind := by
  have hcount (m : Bus) : m.countBlock.video = m.video := rfl
  rw [transferNext_eq]
  split
  · rw [hcount, blind_copyBlock]
  · rfl

theorem depot_slot_advance (dots : Nat) (r : Bus) :
    { r with slot := r.slot.advance dots }.depot = r.depot := by
  rw [depot, content_slot_advance]
  rfl

/-- A paced transfer that began with `first` blocks, so many dots ago. -/
structure Underway (b : Bus) (n first dots paid : Nat) (r : Bus) : Prop where
  pacing : Pacing b n (min n (first + b.video.blanks dots)) paid r
  shown : r.video.blind = (b.video.advance dots 0).video.blind

variable {first dots : Nat}

theorem Underway.blanks (h : Underway b n first dots paid r) (more : Nat) :
    b.video.blanks dots + r.video.blanks more = b.video.blanks (dots + more) := by
  rw [Video.blanks_add, Video.blanks_of_blind h.shown]

theorem Underway.blind_advance (h : Underway b n first dots paid r) (more : Nat) (flags : UInt8) :
    (r.video.advance more flags).video.blind =
      (b.video.advance (dots + more) 0).video.blind := by
  rw [Video.blind_advance, h.shown, ← Video.blind_advance, Video.video_advance_add _ _ _ 0 flags]

include hs in
/-- A block moves with each horizontal blank that begins. -/
theorem Underway.advance (h : Underway b n first dots paid r) (hidle : b.objectsIdle = true)
    (cycles : Nat) : Underway b n first (dots + b.dotsIn cycles) paid (r.advance cycles).1 := by
  have hdots : r.dotsIn cycles = b.dotsIn cycles := by rw [dotsIn, dotsIn, h.pacing.speed]
  generalize hd : b.dotsIn cycles = more at *
  let requests := (r.timer.advance cycles r.requests).2
  let run := r.video.advance more requests
  let shown : Bus := { r.advanceTimer cycles with video := run.video, requests := run.flags }
  have hread := Video.readVram_of_cells (Video.cells_advance more r.video requests)
  have hshown : shown.depot = r.depot := by
    simp only [depot, content, shown, run, hread, Video.cells_advance]
    rfl
  have hcount : min n (min n (first + b.video.blanks dots) + run.hblanks) =
      min n (first + b.video.blanks (dots + more)) := by
    rw [Video.hblanks_advance, ← h.blanks]
    omega
  have hmoved := (h.pacing.beside hshown rfl rfl rfl rfl rfl).repeat_transferNext hs run.hblanks
  have hblind : (Nat.repeat Bus.transferNext run.hblanks shown).video.blind = run.video.blind :=
    repeat_unchanged (g := fun r : Bus => r.video.blind) blind_transferNext run.hblanks shown
  have hbefore : r.beforeObjects cycles =
      { Nat.repeat Bus.transferNext run.hblanks shown with
        sound := (Nat.repeat Bus.transferNext run.hblanks shown).sound.advance more } := by
    rw [beforeObjects, hdots]
    rfl
  rw [hcount] at hmoved
  generalize Nat.repeat Bus.transferNext run.hblanks shown = moved at *
  have hrests : (r.beforeObjects cycles).advanceObjects cycles = r.beforeObjects cycles := by
    apply advanceObjects_of_idle
    rw [hbefore, objectsIdle]
    change (moved.objectTransfer.delay == 0 && moved.objectTransfer.remaining == 0) = true
    rw [hmoved.objects]
    exact hidle
  rw [advance_fst, hrests, hbefore, hdots]
  refine ⟨hmoved.beside (depot_slot_advance _ _) rfl rfl rfl rfl rfl, ?_⟩
  exact hblind.trans (h.blind_advance more requests)

/-- Time passes, or the processor pays what it owes. -/
inductive Lapse
  | advance (cycles : Nat)
  | pay
deriving DecidableEq, Repr

namespace Lapse

def apply : Lapse → Bus × Nat → Bus × Nat
  | .advance cycles, (b, paid) => ((b.advance cycles).1, paid)
  | .pay, (b, paid) => ({ b with stall := 0 }, paid + b.stall)

def lasts (b : Bus) : Lapse → Nat
  | .advance cycles => b.dotsIn cycles
  | .pay => 0

end Lapse

/-- The bus after some time, and what has been paid in it. -/
def elapse (lapses : List Lapse) (b : Bus) : Bus × Nat :=
  lapses.foldl (fun state lapse => lapse.apply state) (b, 0)

def elapsed (b : Bus) (lapses : List Lapse) : Nat := (lapses.map (Lapse.lasts b)).sum

theorem Underway.pay (h : Underway b n first dots paid r) :
    Underway b n first dots (paid + r.stall) { r with stall := 0 } := by
  obtain ⟨hp, hv⟩ := h
  exact ⟨{ hp with stall := hp.stall }, hv⟩

include hs in
theorem Underway.run (h : Underway b n first dots paid r) (hidle : b.objectsIdle = true)
    (lapses : List Lapse) :
    let state := lapses.foldl (fun state lapse => lapse.apply state) (r, paid)
    Underway b n first (dots + b.elapsed lapses) state.2 state.1 := by
  induction lapses generalizing r dots paid with
  | nil => exact h
  | cons lapse lapses ih =>
    rw [elapsed, List.map_cons, List.sum_cons, ← Nat.add_assoc]
    cases lapse with
    | advance cycles => exact ih (h.advance hs hidle cycles)
    | pay => exact ih h.pay

/-! ## The ways of a transfer -/

theorem Underway.enabled (h : Underway b n first dots paid r) :
    r.video.enabled = b.video.enabled := by
  have hv : r.video.enabled = (b.video.advance dots 0).video.enabled :=
    (congrArg Video.enabled h.shown :)
  rw [hv, Video.enabled_advance]

/-- A length register for so many blocks, as it is written. -/
theorem lengthRegister {n : Nat} (hn : 1 ≤ n) (hmax : n ≤ 128) :
    let whole := UInt8.ofNat (n - 1)
    let paced := UInt8.ofNat (0x80 + (n - 1))
    (whole.toNat % 0x80 + 1 = n ∧ (whole &&& 0x80 != 0) = false) ∧
      paced.toNat % 0x80 + 1 = n ∧ (paced &&& 0x80 != 0) = true := by
  have hall : ∀ m < 128,
      ((UInt8.ofNat m).toNat % 0x80 = m ∧ (UInt8.ofNat m &&& 0x80 != 0) = false) ∧
        (UInt8.ofNat (0x80 + m)).toNat % 0x80 = m ∧ (UInt8.ofNat (0x80 + m) &&& 0x80 != 0) = true := by
    decide
  obtain ⟨⟨h, hb⟩, h', hb'⟩ := hall (n - 1) (by omega)
  exact ⟨⟨by omega, hb⟩, by omega, hb'⟩

/-- A transfer of all blocks at once. -/
theorem write_whole (hcgb : b.cgb = true) (hoff : b.blockTransfer.active = false)
    (hn : 1 ≤ n) (hmax : n ≤ 128) :
    b.write 0xFF55 (UInt8.ofNat (n - 1)) = b.transferAll n := by
  obtain ⟨⟨hlength, hbit⟩, -⟩ := lengthRegister hn hmax
  have hw := write_transferControl b (UInt8.ofNat (n - 1))
  rw [transferControl, if_pos hcgb, controlBlocks, hlength] at hw
  simp only [hbit, hoff] at hw
  exact hw

/-- A transfer of a block at each horizontal blank. -/
theorem write_paced (hcgb : b.cgb = true) (hn : 1 ≤ n) (hmax : n ≤ 128) :
    b.write 0xFF55 (UInt8.ofNat (0x80 + (n - 1))) = b.transferPaced n := by
  obtain ⟨-, hlength, hbit⟩ := lengthRegister hn hmax
  have hw := write_transferControl b (UInt8.ofNat (0x80 + (n - 1)))
  rw [transferControl, if_pos hcgb, controlBlocks, hlength] at hw
  simp only [hbit] at hw
  exact hw

include hs in
theorem moved_transferAll : Moved b n 0 (b.transferAll n) := by
  have hcopied := copied_repeat copied_copyBlock n b.startWhole
  have hstart : b.startWhole.depot = b.depot := rfl
  have hdepot : (b.startWhole.copyBlocks n).depot = (b.copyBlocks n).depot := by
    rw [copyBlocks_eq, copyBlocks_eq]
    exact depot_repeat_copyByte hstart hs
  rw [transferAll_eq]
  rw [copyBlocks] at hdepot
  generalize Nat.repeat copyBlock n b.startWhole = r at *
  obtain ⟨hr, -⟩ := hcopied
  refine ⟨hdepot, ?_, ?_, ?_, ?_⟩
  · change 0 + (r.stall + n * r.blockStall) = _
    rw [Nat.zero_add, hr]
    rfl
  · change r.cgb = _
    rw [hr]
    rfl
  · change r.doubleSpeed = _
    rw [hr]
    rfl
  · change r.objectTransfer = _
    rw [hr]
    rfl

theorem active_transferAll (n : Nat) (b : Bus) :
    (b.transferAll n).blockTransfer.active = false := by
  have hcopied := copied_repeat copied_copyBlock n b.startWhole
  rw [transferAll_eq]
  change (Nat.repeat copyBlock n b.startWhole).blockTransfer.active = false
  rw [hcopied.transfer]
  rfl

theorem pacing_startPaced (hn : 1 ≤ n) : Pacing b n 0 0 (b.startPaced n) where
  depot := rfl
  stall := by rw [Nat.zero_mul, Nat.zero_add]; rfl
  cgb := rfl
  speed := rfl
  objects := rfl
  le := Nat.zero_le n
  blocks := rfl
  paced := rfl
  active := (decide_eq_true (Nat.lt_of_succ_le hn)).symm

include hs in
theorem underway_transferPaced (hn : 1 ≤ n) (hon : b.video.enabled = true) :
    Underway b n (if b.video.mode = .hblank then 1 else 0) 0 0 (b.transferPaced n) := by
  have hstart := pacing_startPaced (b := b) hn
  have hnow : b.video.blanks 0 = 0 := rfl
  have hshown : (b.video.advance 0 0).video = b.video := by
    rw [Video.advance, if_pos hon]
    rfl
  rw [transferPaced_eq, hon]
  by_cases hm : b.video.mode = .hblank
  · have hnext : (!true || b.video.mode == .hblank) = true := by
      rw [hm]
      rfl
    rw [if_pos hnext, if_pos hm]
    refine ⟨?_, ?_⟩
    · rw [hnow, Nat.min_eq_right hn]
      exact hstart.transferNext hs (Nat.lt_of_succ_le hn)
    · rw [blind_transferNext, hshown]
      rfl
  · have hwait : ¬(!true || b.video.mode == .hblank) = true := by
      rw [Bool.not_true, Bool.false_or, beq_iff_eq]
      exact hm
    rw [if_neg hwait, if_neg hm]
    refine ⟨?_, ?_⟩
    · rw [hnow, Nat.min_eq_right (Nat.zero_le n)]
      exact hstart
    · rw [hshown]
      rfl

theorem read_transferControl (hcgb : r.cgb = true) (hidle : r.objectsIdle = true) :
    r.read 0xFF55 = r.readBlockTransfer 0xFF55 := by
  have hbusy : r.objectsBusy = false := by
    simp only [objectsIdle, Bool.and_eq_true, beq_iff_eq] at hidle
    rw [objectsBusy, hidle.2]
    rfl
  have hregion : Region.decode 0xFF55 = .blockTransfer := by decide
  rw [read_eq, hbusy, hregion, readUnlocked_eq, hregion]
  simp only [readRegion, hcgb]
  rfl

/-- A screen that goes off lets the rest of the blocks move. -/
theorem write_screenOff (hon : r.video.enabled = true) {value : UInt8}
    (hoff : Video.hasBit value 0x80 = false) : ∃ v : Video, v.cells = r.video.cells ∧
      r.write 0xFF40 value = { r with video := v }.transferRest := by
  have hregion : Region.decode 0xFF40 = .video := by decide
  have hw : r.write 0xFF40 value = r.writeVideo 0xFF40 value := by
    rw [write_register (by decide), hregion]
    rfl
  have hnext : Video.enabled { r.video with lcdc := value } = false := hoff
  have hv : r.video.write 0xFF40 value r.requests =
      (Video.switchOff { r.video with lcdc := value }, r.requests) := by
    change r.video.writeControl value r.requests = _
    rw [Video.writeControl, hon, hnext]
    rfl
  refine ⟨Video.switchOff { r.video with lcdc := value }, rfl, ?_⟩
  rw [hw, writeVideo, hv, hon]
  have hdark : (Video.switchOff { r.video with lcdc := value }).enabled = false := hoff
  simp only [hdark]
  rfl

/-- Where the blocks have gone, and what has been charged for them and before. -/
structure Account where
  vram0 : Memory Video.bankSize
  vram1 : Memory Video.bankSize
  source : UInt16
  target : UInt16
  charged : Nat

/-- The account of a bus for which so much has been paid. -/
def account (paid : Nat) (b : Bus) : Account where
  vram0 := b.video.vram0
  vram1 := b.video.vram1
  source := b.blockTransfer.source
  target := b.blockTransfer.target
  charged := paid + b.stall

theorem Moved.account (h : Moved b k paid r) :
    r.account paid = (b.copyBlocks k).account (k * b.blockStall) := by
  have hd := h.depot
  have hcopied : Copied b (b.copyBlocks k) := copied_repeat copied_copyBlock k b
  have hstall : (b.copyBlocks k).stall = b.stall := by rw [hcopied.rest]
  simp only [Bus.depot, Video.cells, Depot.mk.injEq, Video.Cells.mk.injEq] at hd
  obtain ⟨-, ⟨h0, h1, -, -⟩, hsource, htarget⟩ := hd
  simp only [Bus.account, h0, h1, hsource, htarget, h.stall, hstall, Nat.add_comm]

/-- All ways of a block transfer agree. Its blocks may move at once; or one moves with each
horizontal blank that begins, and one more if it is one already, however the time is portioned
and whenever the processor pays; or the screen goes off before the last, and the rest move at
once. In the end it is the same memory, the same addresses and the same price; and as long as
blocks are left, the register tells how many, less one. -/
theorem block_transfers_agree (b : Bus) (n : Nat) (hcgb : b.cgb = true)
    (hidle : b.objectsIdle = true) (hoff : b.blockTransfer.active = false) (hn : 1 ≤ n)
    (hmax : n ≤ 128) (hs : b.blockTransfer.source.toNat + 16 * n ≤ 0xE000) :
    let whole := b.write 0xFF55 (UInt8.ofNat (n - 1))
    let paced := b.write 0xFF55 (UInt8.ofNat (0x80 + (n - 1)))
    (whole.account 0 = (b.copyBlocks n).account (n * b.blockStall) ∧
      whole.blockTransfer.active = false) ∧
    (b.video.enabled = true → ∀ lapses : List Lapse,
      let r := (paced.elapse lapses).1
      let paid := (paced.elapse lapses).2
      let dots := b.elapsed lapses
      let moved := (if b.video.mode = .hblank then 1 else 0) + b.video.blanks dots
      r.video.mode = (b.video.advance dots 0).video.mode ∧
      (n ≤ moved → r.account paid = whole.account 0 ∧ r.blockTransfer.active = false) ∧
      (moved < n →
        r.read 0xFF55 = UInt8.ofNat (n - moved - 1) ∧ r.blockTransfer.active = true ∧
        r.account paid = (b.copyBlocks moved).account (moved * b.blockStall) ∧
        ∀ value, Video.hasBit value 0x80 = false →
          (r.write 0xFF40 value).account paid = whole.account 0 ∧
            (r.write 0xFF40 value).blockTransfer.active = false)) := by
  intro whole paced
  have hwhole : whole.account 0 = (b.copyBlocks n).account (n * b.blockStall) := by
    change (b.write 0xFF55 _).account 0 = _
    rw [write_whole hcgb hoff hn hmax]
    exact (moved_transferAll hs).account
  have hdone : whole.blockTransfer.active = false := by
    change (b.write 0xFF55 _).blockTransfer.active = _
    rw [write_whole hcgb hoff hn hmax]
    exact active_transferAll n b
  refine ⟨⟨hwhole, hdone⟩, fun hon lapses => ?_⟩
  intro r paid dots moved
  have hstart := underway_transferPaced hs hn hon
  rw [← write_paced hcgb hn hmax] at hstart
  have hrun : Underway b n _ (0 + b.elapsed lapses) paid r := hstart.run hs hidle lapses
  rw [Nat.zero_add] at hrun
  have hp : Pacing b n (min n moved) paid r := hrun.pacing
  refine ⟨Video.mode_of_blind hrun.shown, fun hle => ?_, fun hlt => ?_⟩
  · rw [Nat.min_eq_left hle] at hp
    exact ⟨hp.account.trans hwhole.symm, hp.active.trans (decide_eq_false (Nat.lt_irrefl n))⟩
  · rw [Nat.min_eq_right (Nat.le_of_lt hlt)] at hp
    have hactive : r.blockTransfer.active = true := hp.active.trans (decide_eq_true hlt)
    have hidle' : r.objectsIdle = true := by
      rw [objectsIdle, hp.objects]
      exact hidle
    refine ⟨?_, hactive, hp.account, fun value hvalue => ?_⟩
    · have hlength : (r.blockTransfer.blocks - 1) % 0x80 = n - moved - 1 := by
        rw [hp.blocks]
        omega
      rw [read_transferControl (hp.cgb.trans hcgb) hidle', readBlockTransfer]
      simp only [hactive, hlength]
      rfl
    · obtain ⟨v, hv, hw⟩ := write_screenOff (hrun.enabled.trans hon) hvalue
      have hdark : ({ r with video := v } : Bus).depot = r.depot := by
        simp only [depot, content, hv, Video.readVram_of_cells hv]
        rfl
      have hrest := (hp.beside hdark rfl rfl rfl rfl rfl).transferRest hs
      rw [hw]
      exact ⟨hrest.account.trans hwhole.symm,
        hrest.active.trans (decide_eq_false (Nat.lt_irrefl n))⟩

/-- A console whose screen is on, two dots before a horizontal blank. -/
def beforeBlank : Bus :=
  { Bus.new default .cgb true 44100 with
    video :=
      { cgb := true
        colorOutput := true
        lcdc := 0x80
        mode := .transfer
        clock := Video.minTransferDots - 2
        transferDots := Video.minTransferDots } }

theorem block_transfers_agree_beforeBlank :
    let whole := beforeBlank.write 0xFF55 1
    let paced := beforeBlank.write 0xFF55 0x81
    let first := paced.elapse [.advance 4, .pay]
    let second := paced.elapse [.advance 4, .pay, .advance 456]
    first.1.read 0xFF55 = 0 ∧
      (first.1.write 0xFF40 0).account first.2 = whole.account 0 ∧
      second.1.account second.2 = whole.account 0 := by
  obtain ⟨-, hways⟩ := block_transfers_agree beforeBlank 2 rfl rfl rfl (by decide) (by decide)
    (by decide)
  have hfirst : beforeBlank.video.blanks 4 = 1 := by
    rw [← Video.hblanks_advance 4 _ 0]
    decide +kernel
  have hsecond : beforeBlank.video.blanks 460 = 2 := by
    rw [← Video.hblanks_advance 460 _ 0]
    decide +kernel
  obtain ⟨-, -, hone⟩ := hways (by decide) [.advance 4, .pay]
  obtain ⟨-, htwo, -⟩ := hways (by decide) [.advance 4, .pay, .advance 456]
  have htime : beforeBlank.elapsed [.advance 4, .pay] = 4 := by decide
  have htime' : beforeBlank.elapsed [.advance 4, .pay, .advance 456] = 460 := by decide
  have hmode : ¬beforeBlank.video.mode = .hblank := by decide
  rw [htime, hfirst, if_neg hmode] at hone
  rw [htime', hsecond, if_neg hmode] at htwo
  obtain ⟨hread, -, -, hrest⟩ := hone (by decide)
  exact ⟨hread, (hrest 0 (by decide)).1, (htwo (by decide)).1⟩

end DotMatrix.Bus
