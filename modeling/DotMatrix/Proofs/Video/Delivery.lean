import DotMatrix.Proofs.Video.Composite
import DotMatrix.Proofs.Video.Painter
import DotMatrix.Proofs.Video.Position

/-!
# The delivery of a line

From an object scan on, the line that will be delivered is settled: unless something is
written, each dot brings it nearer and delivers nothing else, whatever the portions that the
dots come in. With the passes that paint a line and the meaning of its columns this tells
the host what it is handed.
-/
namespace DotMatrix.Video

/-! ## Up to the line -/

/-- Dots from a place in the object scan to the delivery of the line. -/
def dotsToLine (v : Video) : Nat := scanDots - v.clock + v.scanSprites.transferLength

/-- The unit delivers `line` with its `k`-th dot from here. -/
inductive Pending (line : Scanline) (k : Nat) (v : Video) : Prop
  | scan (on : v.enabled = true) (mode : v.mode = .scan) (clock : v.clock < scanDots)
      (drawn : v.scanSprites.scanline = line) (left : v.dotsToLine = k)
  | transfer (on : v.enabled = true) (mode : v.mode = .transfer) (clock : v.clock < v.transferDots)
      (drawn : v.scanline = line) (left : v.transferDots - v.clock = k)

/-- The lines that a host is handed: after each portion of dots, which comes with the
interrupt flags of its time, it takes those that are finished. -/
def deliver : List (Nat × UInt8) → Video → List Scanline
  | [], _ => []
  | (dots, flags) :: portions, v =>
    let (v, lines) := (v.advance dots flags).video.takeFinished
    lines.toList ++ deliver portions v

variable {v : Video} {r : Run} {line : Scanline} {k n : Nat}

theorem Pending.enabled (h : Pending line k v) : v.enabled = true := by
  cases h <;> assumption

theorem Pending.pos (h : Pending line k v) : 0 < k := by
  cases h with
  | scan _ _ clock _ left =>
    rw [dotsToLine] at left
    omega
  | transfer _ _ clock _ left => omega

/-- The status and the lines that wait are no part of a line. -/
theorem Pending.beside (h : Pending line k v) (coincidence statLine : Bool)
    (finished : Array Scanline) :
    Pending line k { v with coincidence, statLine, finished } := by
  cases h with
  | scan on mode clock drawn left => exact .scan on mode clock drawn left
  | transfer on mode clock drawn left => exact .transfer on mode clock drawn left

theorem Pending.takeFinished (h : Pending line k v) : Pending line k v.takeFinished.1 :=
  h.beside v.coincidence v.statLine #[]

/-! ## One dot -/

theorem Pending.settle (h : Pending line k r.video) : Pending line k r.settle.video := by
  have hv : ∃ coincidence statLine,
      r.settle.video = { r.video with coincidence, statLine } := by
    simp only [Run.settle, updateStat, compareLine]
    split <;> exact ⟨_, _, rfl⟩
  obtain ⟨coincidence, statLine, hv⟩ := hv
  rw [hv]
  exact h.beside coincidence statLine r.video.finished

theorem finished_settle (r : Run) : r.settle.video.finished = r.video.finished :=
  congrArg Outline.finished (Run.outline_settle r)

/-- A dot that is not the last brings the line nearer. -/
theorem Pending.tick (h : Pending line k r.video) (hk : 1 < k) :
    Pending line (k - 1) r.tick.video ∧ r.tick.video.finished = r.video.finished := by
  rw [tick_eq]
  cases h with
  | scan on mode clock drawn left =>
    have hdots : r.video.modeDots = scanDots := by rw [modeDots, mode]
    rw [hdots]
    split
    · rename_i hlt
      refine ⟨.scan on mode hlt drawn ?_, rfl⟩
      change scanDots - (r.video.clock + 1) + r.video.scanSprites.transferLength = k - 1
      rw [dotsToLine] at left
      omega
    · rename_i hge
      -- The objects are chosen, and the length of the transfer is measured with them.
      have hlength := transferLength_bounds r.video.scanSprites
      have hnext : r.nextMode.video = { r.video.scanSprites with
          clock := 0, transferDots := r.video.scanSprites.transferLength, mode := .transfer } := by
        simp only [Run.nextMode, mode]
        rfl
      have hpos : 0 < minTransferDots := by decide
      have hpending : Pending line (k - 1) r.nextMode.video := by
        rw [hnext]
        refine .transfer on rfl (Nat.lt_of_lt_of_le hpos hlength.1) drawn ?_
        change r.video.scanSprites.transferLength - 0 = k - 1
        rw [dotsToLine] at left
        omega
      refine ⟨hpending.settle, ?_⟩
      rw [finished_settle, hnext]
      rfl
  | transfer on mode clock drawn left =>
    have hdots : r.video.modeDots = r.video.transferDots := by rw [modeDots, mode]
    rw [hdots, if_pos (by omega)]
    refine ⟨.transfer on mode ?_ drawn ?_, rfl⟩
    · change r.video.clock + 1 < r.video.transferDots
      omega
    · change r.video.transferDots - (r.video.clock + 1) = k - 1
      omega

/-- The last dot delivers it. -/
theorem Pending.tick_last (h : Pending line 1 r.video) :
    r.tick.video.finished = r.video.finished.push line := by
  rw [tick_eq]
  cases h with
  | scan _ _ _ _ left =>
    have hlength := (transferLength_bounds r.video.scanSprites).1
    rw [dotsToLine] at left
    rw [minTransferDots] at hlength
    omega
  | transfer _ mode _ drawn left =>
    have hdots : r.video.modeDots = r.video.transferDots := by rw [modeDots, mode]
    rw [hdots, if_neg (by omega), finished_settle, ← drawn]
    simp only [Run.nextMode, mode, drawLine_eq]
    rfl

/-! ## A number of dots -/

/-- Fewer dots bring the line nearer by as many and deliver nothing. -/
theorem Pending.advance (h : Pending line k v) (hn : n < k) (flags : UInt8) :
    Pending line (k - n) (v.advance n flags).video ∧
      (v.advance n flags).video.finished = v.finished := by
  induction n with
  | zero =>
    rw [Video.advance, if_pos h.enabled]
    exact ⟨h, rfl⟩
  | succ n ih =>
    obtain ⟨hp, hf⟩ := ih (Nat.lt_of_succ_lt hn)
    obtain ⟨hp', hf'⟩ := hp.tick (Nat.lt_sub_of_add_lt (by omega))
    rw [advance_succ h.enabled]
    exact ⟨hp', hf'.trans hf⟩

/-- Enough of them deliver it before any other line. -/
theorem Pending.delivered (h : Pending line k v) (hn : k ≤ n) (flags : UInt8) :
    ∃ rest, (v.advance n flags).video.finished.toList = v.finished.toList ++ line :: rest := by
  have hlast : (v.advance k flags).video.finished = v.finished.push line := by
    obtain ⟨j, rfl⟩ := Nat.exists_eq_add_one.mpr h.pos
    obtain ⟨hp, hf⟩ := h.advance (Nat.lt_succ_self j) flags
    rw [Nat.add_sub_cancel_left] at hp
    rw [advance_succ h.enabled, hp.tick_last, hf]
  obtain ⟨m, rfl⟩ := Nat.exists_eq_add_of_le hn
  rw [advance_add]
  generalize v.advance k flags = first at hlast ⊢
  obtain ⟨rest, hrest, _⟩ := (emits_advance m first.video first.flags).lines
  refine ⟨rest, hrest.trans ?_⟩
  change first.video.finished.toList ++ rest = _
  rw [hlast, Array.toList_push, List.append_assoc, List.singleton_append]

/-- The host is handed the line after those that waited. -/
theorem Pending.deliver {portions : List (Nat × UInt8)} (h : Pending line k v)
    (hk : k ≤ (portions.map (·.1)).sum) :
    ∃ rest, v.deliver portions = v.finished.toList ++ line :: rest := by
  induction portions generalizing k v with
  | nil => exact absurd h.pos (Nat.not_lt_of_le hk)
  | cons portion portions ih =>
    obtain ⟨dots, flags⟩ := portion
    rw [List.map_cons, List.sum_cons] at hk
    by_cases hd : dots < k
    · obtain ⟨hp, hf⟩ := h.advance hd flags
      obtain ⟨rest, hrest⟩ := ih hp.takeFinished (Nat.sub_le_of_le_add (Nat.add_comm dots _ ▸ hk))
      refine ⟨rest, ?_⟩
      rw [Video.deliver]
      exact congr (congrArg _ (congrArg Array.toList hf)) hrest
    · obtain ⟨rest, hrest⟩ := h.delivered (Nat.le_of_not_lt hd) flags
      refine ⟨rest ++ (v.advance dots flags).video.takeFinished.1.deliver portions, ?_⟩
      rw [← List.cons_append, ← List.append_assoc, ← hrest]
      rfl

/-! ## The line -/

/-- From anywhere in the object scan of a line, while nothing is written, no line is finished
before the last of `dotsToLine` dots, and the next one that the host is handed is the current
line, with its number and format: it is what the passes over its columns paint with the
objects of the scan, and each of its columns shows the object that wins it or the backdrop. -/
theorem deliver_shows (on : v.enabled = true) (mode : v.mode = .scan) (clock : v.clock < scanDots)
    (portions : List (Nat × UInt8)) (enough : v.dotsToLine ≤ (portions.map (·.1)).sum) :
    (∃ line rest, v.deliver portions = v.finished.toList ++ line :: rest ∧
      (line.line = v.ly ∧ line.format = v.format) ∧
      line.pixels = v.scanSprites.painted.pixels.toArray ∧
      ∀ x pixel, line.pixels[x]? = some pixel ↔ x < screenWidth ∧ v.Shows x pixel) ∧
    ∀ n < v.dotsToLine, ∀ flags, (v.advance n flags).video.finished = v.finished := by
  have hpending : Pending v.scanSprites.scanline v.dotsToLine v := .scan on mode clock rfl rfl
  refine ⟨?_, fun n hn flags => (hpending.advance hn flags).2⟩
  obtain ⟨rest, hrest⟩ := hpending.deliver enough
  refine ⟨v.scanSprites.scanline, rest, hrest, ⟨rfl, rfl⟩, pixels_scanline _, fun x pixel => ?_⟩
  rw [scanline, Array.getElem?_ofFn, shows_iff]
  split
  · rename_i hx
    simp only [Option.some.injEq, hx, true_and]
  · rename_i hx
    simp only [reduceCtorEq, hx, false_and]

/-- A background of colour one under three objects that overlap on the top line. -/
def overlapping : Video where
  cgb := false
  colorOutput := false
  lcdc := 0x93
  mode := .scan
  vram0 := (default : Memory bankSize).set 0 0xFF
  oam := (default : Memory (4 * objectCount)).write 0
    [16, 12, 0, 0x80, 16, 10, 0, 0x10, 16, 16, 0, 0x10]
  bgp := 0x0C
  obp1 := 0x08

/-- The second object wins over the first by its column. The first wins over the third and
is hidden by the background, and so the third is not shown. -/
theorem deliver_overlapping : ∃ line rest,
    overlapping.deliver [(100, 0), (300, 0xE0)] = line :: rest ∧
      line.pixels[6]? = some 2 ∧ line.pixels[11]? = some 3 := by
  have henough : overlapping.dotsToLine ≤ 100 + (300 + 0) := by
    have hlength := (transferLength_bounds overlapping.scanSprites).2
    rw [maxTransferDots] at hlength
    change 80 + overlapping.scanSprites.transferLength ≤ _
    omega
  obtain ⟨⟨line, rest, hdeliver, -, -, hshows⟩, -⟩ :=
    deliver_shows (v := overlapping) rfl rfl (by decide) [(100, 0), (300, 0xE0)] henough
  have hsecond : overlapping.Wins 6 1 :=
    .of_forall ⟨by decide, by decide +kernel, by decide +kernel⟩ (by decide +kernel)
      (by decide +kernel)
  have hfirst : overlapping.Wins 11 0 :=
    .of_forall ⟨by decide, by decide +kernel, by decide +kernel⟩ (by decide +kernel)
      (by decide +kernel)
  have hobject : overlapping.objPixel (overlapping.object 1).flags
      (overlapping.objectColor 1 6) = 2 := by decide +kernel
  have hbackdrop : overlapping.backdropPixel 11 = 3 := by decide +kernel
  refine ⟨line, rest, hdeliver, (hshows 6 2).mpr ⟨by decide, ?_⟩,
    (hshows 11 3).mpr ⟨by decide, ?_⟩⟩
  · rw [← hobject]
    exact .object (by decide) hsecond fun hc => absurd hc.asked (by decide +kernel)
  · rw [← hbackdrop]
    exact .covered hfirst ⟨.inl rfl, by decide +kernel, .inl (by decide +kernel)⟩

end DotMatrix.Video
