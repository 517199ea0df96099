import DotMatrix.Proofs.Video.Signal
import DotMatrix.Proofs.Video.Range

/-!
# The dots of a frame

A unit that is on is at some dot of its frame. Every dot moves it on by one, around the
frame, however long the modes of its lines are; so dots may be taken in any portions, and
in one stride up to the end of a mode.
-/
namespace DotMatrix.Video

/-! ## The raster -/

/-- What tells the place in the frame. -/
structure Raster where
  mode : Mode
  line : Nat
  clock : Nat
  transferDots : Nat
deriving DecidableEq

def raster (v : Video) : Raster where
  mode := v.mode
  line := v.ly
  clock := v.clock
  transferDots := v.transferDots

namespace Raster

def modeDots (p : Raster) : Nat :=
  match p.mode with
  | .scan => scanDots
  | .transfer => p.transferDots
  | .hblank => dotsPerLine - scanDots - p.transferDots
  | .vblank => dotsPerLine

def finishedDots (p : Raster) : Nat :=
  match p.mode with
  | .scan => 0
  | .transfer => scanDots
  | .hblank => scanDots + p.transferDots
  | .vblank => 0

/-- Dots of the frame that are over. -/
def position (p : Raster) : Nat := p.line * dotsPerLine + (p.finishedDots + p.clock)

def modeEnd (p : Raster) : Nat := p.line * dotsPerLine + (p.finishedDots + p.modeDots)

/-- The place is one of the frame. -/
structure InFrame (p : Raster) : Prop where
  line : p.line ≤ lastLine
  blank : screenHeight ≤ p.line ↔ p.mode = .vblank
  clock : p.clock < p.modeDots
  transferMin : minTransferDots ≤ p.transferDots
  transferMax : p.transferDots ≤ maxTransferDots

/-- Where the next mode begins. The transfer that follows a scan lasts `length` dots. -/
def next (length : Nat) (p : Raster) : Raster :=
  match p.mode with
  | .scan => { p with mode := .transfer, clock := 0, transferDots := length }
  | .transfer => { p with mode := .hblank, clock := 0 }
  | .hblank =>
    if p.line + 1 = screenHeight then { p with mode := .vblank, line := p.line + 1, clock := 0 }
    else { p with mode := .scan, line := p.line + 1, clock := 0 }
  | .vblank =>
    if p.line = lastLine then { p with mode := .scan, line := 0, clock := 0 }
    else { p with line := p.line + 1, clock := 0 }

variable {p : Raster} {length : Nat}

theorem position_add (n : Nat) (p : Raster) :
    { p with clock := p.clock + n }.position = p.position + n := by
  change p.line * dotsPerLine + (p.finishedDots + (p.clock + n)) = _
  rw [position, Nat.add_assoc, Nat.add_assoc]

theorem position_of_clock_eq (h : p.clock = p.modeDots) : p.position = p.modeEnd := by
  rw [position, modeEnd, h]

theorem modeDots_pos (hn : minTransferDots ≤ p.transferDots)
    (hx : p.transferDots ≤ maxTransferDots) : 0 < p.modeDots := by
  simp only [minTransferDots, maxTransferDots] at hn hx
  simp only [modeDots, scanDots, dotsPerLine]
  split <;> omega

/-- The next mode is one of the frame. -/
theorem InFrame.next (h : p.InFrame) (hn : minTransferDots ≤ length)
    (hx : length ≤ maxTransferDots) : (p.next length).InFrame := by
  have hl := h.line
  have ht := h.transferMin
  have ht' := h.transferMax
  have visible (hm : p.mode ≠ .vblank) : p.line < screenHeight :=
    Nat.lt_of_not_le fun hle => hm (h.blank.mp hle)
  cases hm : p.mode with
  | scan =>
    have hs := visible (by rw [hm]; exact nofun)
    simp only [Raster.next, hm]
    exact ⟨hl, ⟨fun hle => absurd hle (Nat.not_le_of_lt hs), nofun⟩, modeDots_pos hn hx, hn, hx⟩
  | transfer =>
    have hs := visible (by rw [hm]; exact nofun)
    simp only [Raster.next, hm]
    exact ⟨hl, ⟨fun hle => absurd hle (Nat.not_le_of_lt hs), nofun⟩, modeDots_pos ht ht', ht, ht'⟩
  | hblank =>
    have hs := visible (by rw [hm]; exact nofun)
    simp only [Raster.next, hm]
    split
    · rename_i he
      refine ⟨Nat.le_trans (Nat.le_of_eq he) (by decide), ?_, modeDots_pos ht ht', ht, ht'⟩
      exact ⟨fun _ => rfl, fun _ => Nat.le_of_eq he.symm⟩
    · rename_i hne
      have hlt : p.line + 1 < screenHeight := Nat.lt_of_le_of_ne hs hne
      refine ⟨Nat.le_trans (Nat.le_of_lt hlt) (by decide), ?_, modeDots_pos ht ht', ht, ht'⟩
      exact ⟨fun hle => absurd hle (Nat.not_le_of_lt hlt), nofun⟩
  | vblank =>
    have hs : screenHeight ≤ p.line := h.blank.mpr hm
    simp only [Raster.next, hm]
    split
    · exact ⟨Nat.zero_le _, ⟨nofun, nofun⟩, modeDots_pos ht ht', ht, ht'⟩
    · rename_i hne
      have hlt : p.line < lastLine := Nat.lt_of_le_of_ne hl hne
      exact ⟨hlt, ⟨fun _ => rfl, fun _ => Nat.le_succ_of_le hs⟩, modeDots_pos ht ht', ht, ht'⟩

/-- It begins at the dot at which the old one ends; the end of the frame is its start. -/
theorem InFrame.position_next (h : p.InFrame) :
    (p.next length).position % dotsPerFrame = p.modeEnd % dotsPerFrame := by
  cases hm : p.mode with
  | scan =>
    have he : (p.next length).position = p.modeEnd := by
      simp only [Raster.next, hm, position, modeEnd, finishedDots, modeDots]
      omega
    rw [he]
  | transfer =>
    have he : (p.next length).position = p.modeEnd := by
      simp only [Raster.next, hm, position, modeEnd, finishedDots, modeDots]
      omega
    rw [he]
  | hblank =>
    have hx := h.transferMax
    have he : p.modeEnd = (p.line + 1) * dotsPerLine := by
      simp only [modeEnd, hm, finishedDots, modeDots]
      simp only [scanDots, maxTransferDots, dotsPerLine] at hx ⊢
      omega
    simp only [Raster.next, hm, he]
    split
    · simp only [position, finishedDots, Nat.add_zero]
    · simp only [position, finishedDots, Nat.add_zero]
  | vblank =>
    have he : p.modeEnd = (p.line + 1) * dotsPerLine := by
      simp only [modeEnd, hm, finishedDots, modeDots, Nat.add_mul, Nat.zero_add, Nat.one_mul]
    simp only [Raster.next, hm, he]
    split
    · rename_i hl
      rw [hl]
      simp only [position, finishedDots]
      decide
    · simp only [position, finishedDots, Nat.add_zero]

end Raster

variable {v : Video} {r : Run}

theorem transferLength_bounds (v : Video) :
    minTransferDots ≤ v.transferLength ∧ v.transferLength ≤ maxTransferDots :=
  ⟨Nat.le_min.mpr ⟨by omega, by decide⟩, Nat.min_le_right _ _⟩

/-- A change of mode goes to the next mode of the raster. -/
theorem raster_nextMode (r : Run) : ∃ length,
    (minTransferDots ≤ length ∧ length ≤ maxTransferDots) ∧
      r.nextMode.video.raster = r.video.raster.next length := by
  have ht : minTransferDots ≤ minTransferDots ∧ minTransferDots ≤ maxTransferDots := by decide
  cases hm : r.video.mode with
  | scan =>
    refine ⟨_, transferLength_bounds { r.video with clock := 0, mode := .scan }.scanSprites, ?_⟩
    simp only [Run.nextMode, Raster.next, raster, hm]
    rfl
  | transfer =>
    refine ⟨minTransferDots, ht, ?_⟩
    simp only [Run.nextMode, Raster.next, raster, hm]
    rfl
  | hblank =>
    refine ⟨minTransferDots, ht, ?_⟩
    simp only [Run.nextMode, Raster.next, raster, hm]
    split <;> rfl
  | vblank =>
    refine ⟨minTransferDots, ht, ?_⟩
    simp only [Run.nextMode, Raster.next, raster, hm]
    split <;> rfl

/-- What follows a change of mode leaves the raster alone. -/
theorem raster_settle (r : Run) : r.settle.video.raster = r.video.raster := by
  simp only [Run.settle, updateStat, compareLine]
  split <;> rfl

theorem Raster.InFrame.nextMode (h : r.video.raster.InFrame) :
    r.nextMode.settle.video.raster.InFrame ∧
      r.nextMode.settle.video.raster.position % dotsPerFrame =
        r.video.raster.modeEnd % dotsPerFrame := by
  obtain ⟨length, ⟨hn, hx⟩, hr⟩ := raster_nextMode r
  rw [raster_settle, hr]
  exact ⟨h.next hn hx, h.position_next⟩

/-! ## Dot by dot -/

/-- The run `n` dots further on in its mode. -/
def Run.within (n : Nat) (r : Run) : Run :=
  { r with video := { r.video with clock := r.video.clock + n } }

theorem raster_within (n : Nat) (r : Run) :
    (r.within n).video.raster = { r.video.raster with clock := r.video.raster.clock + n } := rfl

theorem nextMode_within (n : Nat) (r : Run) : (r.within n).nextMode = r.nextMode := rfl

theorem tick_eq (r : Run) : r.tick =
    if r.video.clock + 1 < r.video.modeDots then r.within 1 else r.nextMode.settle := rfl

theorem Raster.InFrame.tick (h : r.video.raster.InFrame) : r.tick.video.raster.InFrame ∧
    r.tick.video.raster.position % dotsPerFrame =
      (r.video.raster.position + 1) % dotsPerFrame := by
  have hw := congrArg position (raster_within 1 r)
  rw [position_add] at hw
  rw [tick_eq, ← hw]
  split
  · rename_i hlt
    exact ⟨⟨h.line, h.blank, hlt, h.transferMin, h.transferMax⟩, rfl⟩
  · rename_i hge
    have hc : (r.within 1).video.raster.clock = (r.within 1).video.raster.modeDots :=
      Nat.le_antisymm h.clock (Nat.le_of_not_lt hge)
    rw [position_of_clock_eq hc]
    exact h.nextMode

theorem Raster.InFrame.repeat_tick (h : r.video.raster.InFrame) (n : Nat) :
    (Nat.repeat Run.tick n r).video.raster.InFrame ∧
      (Nat.repeat Run.tick n r).video.raster.position % dotsPerFrame =
        (r.video.raster.position + n) % dotsPerFrame := by
  induction n with
  | zero =>
    rw [Nat.repeat, Nat.add_zero]
    exact ⟨h, rfl⟩
  | succ n ih =>
    obtain ⟨hf, hp⟩ := ih.1.tick
    refine ⟨hf, ?_⟩
    rw [Nat.repeat, hp, Nat.add_mod, ih.2, ← Nat.add_mod, Nat.add_assoc]

/-! ## Portions -/

/-- The run as part of a longer one, with the events that came before. -/
def Run.after (before r : Run) : Run :=
  { r with hblanks := before.hblanks + r.hblanks, vblank := before.vblank || r.vblank }

theorem Run.nextMode_after (before r : Run) :
    (before.after r).nextMode = before.after r.nextMode := by
  have hv : (before.after r).video = r.video := rfl
  rw [nextMode, nextMode, hv]
  simp only
  split
  · rfl
  · rfl
  · split
    · simp only [after, Bool.or_true]
    · rfl
  · split <;> rfl

theorem Run.tick_after (before r : Run) : (before.after r).tick = before.after r.tick := by
  have hv : (before.after r).video = r.video := rfl
  rw [tick, tick, hv]
  split
  · rfl
  · rw [nextMode_after]
    rfl

/-- Dots in two portions: the events add up, and all else goes on. -/
theorem advance_add (v : Video) (a b : Nat) (flags : UInt8) :
    v.advance (a + b) flags = (v.advance a flags).after
      ((v.advance a flags).video.advance b (v.advance a flags).flags) := by
  cases h : v.enabled with
  | false => rw [advance_of_dark h, advance_of_dark h, advance_of_dark h]; rfl
  | true =>
    have he := (enabled_advance a v flags).trans h
    generalize hr : v.advance a flags = r at he
    rw [advance, if_pos h] at hr
    rw [advance, if_pos h, repeat_add, hr, advance, if_pos he, ← repeat_comm (Run.tick_after r)]
    simp only [Run.after, Nat.add_zero, Bool.or_false]

/-! ## Strides -/

/-- Dots taken in one stride up to the end of each mode, whose successor begins at once,
even where no dots remain for it. -/
def Run.stride (dots : Nat) (r : Run) : Option Run :=
  if dots = 0 then some r
  else
    let part := min dots (r.video.modeDots - r.video.clock)
    let r := r.within part
    if r.video.clock < r.video.modeDots then some r
    else (r.nextMode.settle |>.stride (dots - part))
partial_fixpoint

/-- The dots of a mode but for the last move the clock only. -/
theorem repeat_tick_of_lt {n : Nat} (h : r.video.clock + n < r.video.modeDots) :
    Nat.repeat Run.tick n r = r.within n := by
  induction n with
  | zero => rfl
  | succ n ih =>
    rw [Nat.repeat, ih (Nat.lt_of_succ_lt h), tick_eq]
    exact if_pos h

/-- The last dot of a mode begins the next one. -/
theorem repeat_tick_of_eq {n : Nat} (hc : r.video.clock < r.video.modeDots)
    (h : r.video.clock + n = r.video.modeDots) :
    Nat.repeat Run.tick n r = (r.within n).nextMode.settle := by
  obtain ⟨k, rfl⟩ := Nat.exists_eq_add_one.mpr (by omega : 0 < n)
  rw [Nat.repeat, repeat_tick_of_lt (by omega), tick_eq, nextMode_within, nextMode_within]
  exact if_neg (Nat.not_lt_of_le (Nat.le_of_eq h.symm))

/-- The strides end, and end where single dots do. -/
theorem stride_eq_repeat_tick (h : r.video.raster.InFrame) (dots : Nat) :
    r.stride dots = some (Nat.repeat Run.tick dots r) := by
  induction dots using Nat.strongRecOn generalizing r with
  | ind dots ih =>
    have hc : r.video.clock < r.video.modeDots := h.clock
    rw [Run.stride]
    split
    · rename_i h₀
      rw [h₀]
      rfl
    · rename_i h₀
      by_cases hd : r.video.clock + dots < r.video.modeDots
      · have hp : min dots (r.video.modeDots - r.video.clock) = dots := by omega
        simp only [hp, repeat_tick_of_lt hd]
        exact if_pos hd
      · let part := r.video.modeDots - r.video.clock
        have hp : min dots (r.video.modeDots - r.video.clock) = part := by omega
        have hn : Nat.repeat Run.tick part r = (r.within part).nextMode.settle :=
          repeat_tick_of_eq hc (by omega)
        have hf := (h.repeat_tick part).1
        have he : dots = part + (dots - part) := by omega
        have hge : ¬(r.within part).video.clock < (r.within part).video.modeDots :=
          Nat.not_lt_of_le (by change r.video.modeDots ≤ r.video.clock + part; omega)
        simp only [hp]
        rw [if_neg hge, ← hn, ih (dots - part) (by omega) hf, ← repeat_add, ← he]

def stride (dots : Nat) (v : Video) (flags : UInt8) : Option Run :=
  if v.enabled then Run.stride dots { video := v, flags } else some { video := v, flags }

/-- From any place of the frame, dots move the unit on by exactly as many, whatever its
registers make of the lengths of the modes; strides are dots taken together; and two
portions of dots do to the unit, to the interrupt flags and to the lines what their sum
does, their events added up. -/
theorem position_advance (h : v.raster.InFrame) (he : v.enabled = true) (a b : Nat)
    (flags : UInt8) :
    ((v.advance a flags).video.raster.InFrame ∧ (v.advance a flags).video.enabled = true) ∧
      (v.advance a flags).video.raster.position % dotsPerFrame =
        (v.raster.position + a) % dotsPerFrame ∧
      v.stride a flags = some (v.advance a flags) ∧
      v.advance (a + b) flags = (v.advance a flags).after
        ((v.advance a flags).video.advance b (v.advance a flags).flags) := by
  have hr : v.advance a flags = Nat.repeat Run.tick a { video := v, flags } := if_pos he
  have hs : v.stride a flags = some (v.advance a flags) := by
    rw [stride, if_pos he, hr]
    exact stride_eq_repeat_tick h a
  obtain ⟨hf, hp⟩ := Raster.InFrame.repeat_tick (r := { video := v, flags }) h a
  rw [← hr] at hf hp
  exact ⟨⟨hf, (enabled_advance a v flags).trans he⟩, hp, hs, advance_add v a b flags⟩

/-- A unit as it comes out of boot, over two frames and a line in two portions. -/
theorem position_advance_boot :
    let v := boot { cgb := false, colorOutput := false }
    (v.raster.InFrame ∧ v.enabled = true) ∧
      (v.advance 70224 0).video.raster.position % dotsPerFrame = v.raster.position ∧
      v.advance (70224 + 70680) 0 = (v.advance 70224 0).after
        ((v.advance 70224 0).video.advance 70680 (v.advance 70224 0).flags) := by
  have hf : (boot { cgb := false, colorOutput := false }).raster.InFrame := by
    refine ⟨?_, ?_, ?_, ?_, ?_⟩ <;> decide
  have he : (boot { cgb := false, colorOutput := false }).enabled = true := by decide
  obtain ⟨_, hp, _, hadd⟩ := position_advance hf he 70224 70680 0
  exact ⟨⟨hf, he⟩, hp, hadd⟩

end DotMatrix.Video
