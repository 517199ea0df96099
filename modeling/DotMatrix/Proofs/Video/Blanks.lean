import DotMatrix.Proofs.Video.Memory

/-!
# Horizontal blanks

A run counts the horizontal blanks that begin in it. When they begin is a matter of the dots
alone: neither portions nor video memory change it, which only the pictures are made of.
-/
namespace DotMatrix.Video

variable {v : Video} {r : Run}

/-! ## Counting -/

/-- A horizontal blank begins with a dot. -/
def BlankBegins (v : Video) (dot : Nat) : Prop :=
  (v.advance dot 0).video.mode ≠ .hblank ∧ (v.advance (dot + 1) 0).video.mode = .hblank

instance (v : Video) (dot : Nat) : Decidable (v.BlankBegins dot) :=
  inferInstanceAs (Decidable (_ ∧ _))

/-- The horizontal blanks that begin within a number of dots. -/
def blanks (dots : Nat) (v : Video) : Nat := (List.range dots).countP fun dot => v.BlankBegins dot

theorem mode_settle (r : Run) : r.settle.video.mode = r.video.mode :=
  congrArg Raster.mode (raster_settle r)

/-- A dot counts a horizontal blank where it begins one. -/
theorem hblanks_tick (r : Run) : r.tick.hblanks =
    r.hblanks + if r.video.mode ≠ .hblank ∧ r.tick.video.mode = .hblank then 1 else 0 := by
  rw [tick_eq]
  split
  · change r.hblanks = r.hblanks + if r.video.mode ≠ .hblank ∧ r.video.mode = .hblank then 1 else 0
    rw [if_neg fun h => h.1 h.2, Nat.add_zero]
  · rw [mode_settle]
    change r.nextMode.hblanks = _
    cases hm : r.video.mode with
    | scan | transfer =>
      simp only [Run.nextMode, hm]
      rfl
    | hblank =>
      rw [if_neg fun h => h.1 rfl]
      simp only [Run.nextMode, hm]
      split <;> rfl
    | vblank =>
      simp only [Run.nextMode, hm]
      split
      · rfl
      · simp only
        rfl

theorem hblanks_advance (dots : Nat) (v : Video) (flags : UInt8) :
    (v.advance dots flags).hblanks = v.blanks dots := by
  refine (countP_range_eq (f := fun n => (v.advance n flags).hblanks) ?_ (fun dot => ?_) dots).symm
  · rw [advance]
    split <;> rfl
  · simp only [decide_eq_true_eq]
    cases he : v.enabled with
    | false =>
      have hnone : ¬v.BlankBegins dot := by
        rw [BlankBegins, advance_of_dark he, advance_of_dark he]
        exact fun h => h.1 h.2
      rw [advance_of_dark he, advance_of_dark he, if_neg hnone]
    | true =>
      rw [advance_succ he, hblanks_tick, ← advance_succ he, video_advance_flags dot v flags 0,
        video_advance_flags (dot + 1) v flags 0]
      rfl

theorem blanks_add (v : Video) (m n : Nat) :
    v.blanks (m + n) = v.blanks m + (v.advance m 0).video.blanks n := by
  rw [← hblanks_advance (m + n) v 0, advance_add, ← hblanks_advance m v 0,
    ← hblanks_advance n _ (v.advance m 0).flags]
  rfl

/-! ## Without video memory -/

/-- The unit without video memory and the pictures that are made of it. -/
def blind (v : Video) : Video :=
  { v with
    vram0 := default, vram1 := default, shades := default, buffers := default, finished := #[] }

theorem blind_writeVram (v : Video) (address : UInt16) (value : UInt8) :
    (v.writeVram address value).blind = v.blind := by
  rw [writeVram]
  split <;> rfl

def Run.blind (r : Run) : Run := { r with video := r.video.blind }

theorem Run.blind_nextMode (r : Run) : r.nextMode.blind = r.blind.nextMode.blind := by
  have hm : r.blind.video.mode = r.video.mode := rfl
  rw [nextMode, nextMode]
  simp only [hm]
  split
  · rfl
  · rfl
  · have hl : r.blind.video.ly = r.video.ly := rfl
    simp only [hl]
    split <;> rfl
  · have hl : r.blind.video.ly = r.video.ly := rfl
    simp only [hl]
    split <;> rfl

theorem Run.blind_settle (r : Run) : r.settle.blind = r.blind.settle.blind := by
  have he : r.blind.video.enabled = r.video.enabled := rfl
  simp only [settle, updateStat, compareLine, he]
  split <;> rfl

/-- Video memory has no part in the passing of dots. -/
theorem Run.blind_tick (r : Run) : r.tick.blind = r.blind.tick.blind := by
  have hc : (r.blind.video.clock + 1 < r.blind.video.modeDots) =
      (r.video.clock + 1 < r.video.modeDots) := rfl
  rw [tick_eq, tick_eq]
  simp only [hc]
  split
  · rfl
  · rw [blind_settle, blind_nextMode, ← blind_settle]

theorem blind_advance (dots : Nat) (v : Video) (flags : UInt8) :
    (v.advance dots flags).video.blind = (v.blind.advance dots flags).video.blind := by
  have he : v.blind.enabled = v.enabled := rfl
  have hr (n : Nat) : (Nat.repeat Run.tick n { video := v, flags }).blind =
      (Nat.repeat Run.tick n { video := v.blind, flags }).blind := by
    induction n with
    | zero => rfl
    | succ n ih => rw [Nat.repeat, Nat.repeat, Run.blind_tick, ih, ← Run.blind_tick]
  rw [advance, advance, he]
  split
  · exact congrArg Run.video (hr dots)
  · rfl

theorem mode_of_blind {v' : Video} (h : v'.blind = v.blind) : v'.mode = v.mode :=
  (congrArg Video.mode h :)

theorem blanks_of_blind {v' : Video} (h : v'.blind = v.blind) (dots : Nat) :
    v'.blanks dots = v.blanks dots := by
  have hmode (n : Nat) : (v'.advance n 0).video.mode = (v.advance n 0).video.mode := by
    apply mode_of_blind
    rw [blind_advance, h, ← blind_advance]
  refine List.countP_congr fun dot _ => ?_
  rw [decide_eq_true_iff, decide_eq_true_iff, BlankBegins, BlankBegins, hmode, hmode]

end DotMatrix.Video
