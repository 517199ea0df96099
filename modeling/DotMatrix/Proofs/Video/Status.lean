import DotMatrix.Proofs.Video.Order

/-!
# The line of the status interrupt

The unit keeps the outcome of the last comparison and the level of its line, and looks at
them again only where a write or a change of mode may have moved them. Between calls they
are what the registers make of them all the same, and so the interrupt is requested just
where the level of the line rises.
-/
namespace DotMatrix.Video

/-! ## The level of the line -/

/-- The screen is on, and the compared line or the mode is a source that was chosen. -/
def StatRaised (v : Video) : Prop :=
  v.enabled = true ∧
    (v.ly = v.lyc.toNat ∧ hasBit v.stat 0x40 = true ∨
      v.mode = .hblank ∧ hasBit v.stat 0x08 = true ∨
      v.mode = .vblank ∧ hasBit v.stat 0x10 = true ∨
      v.mode = .scan ∧ hasBit v.stat 0x20 = true)

instance (v : Video) : Decidable v.StatRaised := by
  unfold StatRaised
  infer_instance

/-- The line is low in `v` and high in `v'`. -/
def Rises (v v' : Video) : Prop := ¬v.StatRaised ∧ v'.StatRaised

instance (v v' : Video) : Decidable (Rises v v') := by
  unfold Rises
  infer_instance

/-- While the screen is on, the last comparison is that of the registers. -/
def Compared (v : Video) : Prop := v.enabled = true → (v.coincidence = true ↔ v.ly = v.lyc.toNat)

/-- The comparison and the line are what the registers make of them. -/
structure Settled (v : Video) : Prop where
  compared : v.Compared
  line : v.statLine = true ↔ v.StatRaised

/-- From `v` to `v'` the interrupt is requested just if the line rises. -/
structure Requests (v : Video) (flags : UInt8) (v' : Video) (flags' : UInt8) : Prop where
  settled : v'.Settled
  flags : flags' = Interrupt.stat.raise flags (decide (Rises v v'))

/-- What the level depends on. -/
structure Sources where
  enabled : Bool
  ly : Nat
  lyc : UInt8
  coincidence : Bool
  stat : UInt8
  mode : Mode
  statLine : Bool

def sources (v : Video) : Sources where
  enabled := v.enabled
  ly := v.ly
  lyc := v.lyc
  coincidence := v.coincidence
  stat := v.stat
  mode := v.mode
  statLine := v.statLine

variable {v v' : Video} {r : Run} {flags : UInt8}

theorem statRaised_congr (h : v'.sources = v.sources) : v'.StatRaised ↔ v.StatRaised := by
  simp only [sources, Sources.mk.injEq] at h
  obtain ⟨he, hl, hc, _, hs, hm, _⟩ := h
  simp only [StatRaised, he, hl, hc, hs, hm]

theorem Settled.congr (hv : v.Settled) (h : v'.sources = v.sources) : v'.Settled := by
  have hr := statRaised_congr h
  simp only [sources, Sources.mk.injEq] at h
  obtain ⟨he, hl, hy, hc, _, _, hs⟩ := h
  refine ⟨?_, ?_⟩
  · rw [Compared, he, hl, hy, hc]
    exact hv.compared
  · rw [hs, hr]
    exact hv.line

/-- Where nothing moves that the level depends on, nothing is requested. -/
theorem Requests.of_sources (hv : v.Settled) (h : v'.sources = v.sources) (flags : UInt8) :
    Requests v flags v' flags := by
  have hn : ¬Rises v v' := fun hr => hr.1 ((statRaised_congr h).mp hr.2)
  refine ⟨hv.congr h, ?_⟩
  rw [decide_eq_false hn]
  rfl

theorem not_statRaised_of_dark (h : v.enabled = false) : ¬v.StatRaised := fun hr => by
  rw [hr.1] at h
  cases h

/-- Where the screen is off behind a call, nothing was requested. -/
theorem Requests.of_dark {flags' : UInt8} (h : Requests v flags v' flags')
    (hd : v'.enabled = false) : flags' = flags := by
  have hn : ¬Rises v v' := fun hr => not_statRaised_of_dark hd hr.2
  rw [h.flags, decide_eq_false hn]
  rfl

/-! ## Following the level -/

theorem statSignal_iff (h : v.Compared) : v.statSignal = true ↔ v.StatRaised := by
  simp only [statSignal, StatRaised, Bool.and_eq_true]
  refine and_congr_right fun he => ?_
  rw [Bool.or_eq_true, Bool.and_eq_true, h he]
  cases v.mode <;> simp

theorem compared_compareLine (v : Video) : v.compareLine.Compared := by
  intro he
  by_cases h : v.enabled = true
  · simp only [compareLine, h, if_true, beq_iff_eq]
  · rw [compareLine, if_neg h] at he
    exact absurd he h

/-- A look at the sources settles the line. What it requests is told by the line before. -/
theorem requests_updateStat {w : Video} (hw : w.Compared)
    (hl : w.statLine = true ↔ v.StatRaised) (flags : UInt8) :
    Requests v flags (w.updateStat flags).1 (w.updateStat flags).2 := by
  have hs : w.statSignal = true ↔ (w.updateStat flags).1.StatRaised := statSignal_iff hw
  refine ⟨⟨hw, hs⟩, ?_⟩
  have hrise : (w.statSignal && !w.statLine) = decide (Rises v (w.updateStat flags).1) := by
    rw [Bool.eq_iff_iff, decide_eq_true_iff, Bool.and_eq_true, Bool.not_eq_true',
      ← Bool.not_eq_true, hs, hl]
    exact and_comm
  rw [← hrise]
  rfl

theorem statLine_compareLine (v : Video) : v.compareLine.statLine = v.statLine := by
  rw [compareLine]
  split <;> rfl

/-! ## Writes -/

theorem sources_writeColor (v : Video) (address : UInt16) (value : UInt8) :
    (v.writeColor address value).sources = v.sources := by
  rw [writeColor]
  split <;> rfl

/-- The line falls with the screen. -/
theorem requests_switchOff (v : Video) {w : Video} (h : w.enabled = false) (flags : UInt8) :
    Requests v flags w.switchOff flags := by
  have hoff : ¬w.switchOff.StatRaised := not_statRaised_of_dark h
  have hrise : ¬Rises v w.switchOff := fun hr => hoff hr.2
  refine ⟨⟨fun hon => absurd (h.symm.trans hon) nofun, nofun, fun hr => absurd hr hoff⟩, ?_⟩
  rw [decide_eq_false hrise]
  rfl

theorem requests_writeControl (h : v.Settled) (value flags : UInt8) :
    Requests v flags (v.writeControl value flags).1 (v.writeControl value flags).2 := by
  simp only [writeControl]
  cases he : v.enabled with
  | false =>
    cases hn : enabled { v with lcdc := value } with
    | false =>
      refine .of_sources h ?_ flags
      change { v.sources with enabled := enabled { v with lcdc := value } } = v.sources
      rw [hn, ← he]
      rfl
    | true =>
      -- The line was low while the screen was off.
      have hl : v.statLine = true ↔ v.StatRaised := h.line
      refine requests_updateStat (compared_compareLine _) ?_ flags
      rw [statLine_compareLine]
      exact hl
  | true =>
    cases hn : enabled { v with lcdc := value } with
    | false => exact requests_switchOff v hn flags
    | true =>
      refine .of_sources h ?_ flags
      change { v.sources with enabled := enabled { v with lcdc := value } } = v.sources
      rw [hn, ← he]
      rfl

/-- A write requests the interrupt just if it makes the line rise. -/
theorem requests_write (h : v.Settled) (address : UInt16) (value flags : UInt8) :
    Requests v flags (v.write address value flags).1 (v.write address value flags).2 := by
  rw [write]
  split
  · exact requests_writeControl h value flags
  · refine requests_updateStat ?_ ?_ flags
    · exact h.compared
    · exact h.line
  case h_5 =>
    refine requests_updateStat (compared_compareLine _) ?_ flags
    rw [statLine_compareLine]
    exact h.line
  case h_12 =>
    refine .of_sources h ?_ flags
    simp only
    split
    · exact sources_writeColor v address value
    · rfl
  all_goals exact .of_sources h (by rfl) flags

theorem sources_writeVram (v : Video) (address : UInt16) (value : UInt8) :
    (v.writeVram address value).sources = v.sources := by
  unfold writeVram
  split <;> rfl

/-! ## Dots -/

/-- The vertical blank leaves the request of the status interrupt as it is. -/
theorem hasBit_raise_stat (flags : UInt8) (now : Bool) :
    hasBit (Interrupt.vblank.raise flags now) Interrupt.stat.bit =
      hasBit flags Interrupt.stat.bit := by
  cases now with
  | false => rfl
  | true =>
    rw [Interrupt.raise, if_pos rfl, hasBit_or]
    exact Bool.or_false _

theorem nextMode_beside (r : Run) : r.nextMode.video.statLine = r.video.statLine ∧
    hasBit r.nextMode.flags Interrupt.stat.bit = hasBit r.flags Interrupt.stat.bit := by
  rw [Run.nextMode]
  simp only
  split
  · exact ⟨rfl, rfl⟩
  · exact ⟨rfl, rfl⟩
  · split
    · exact ⟨rfl, hasBit_raise_stat r.flags true⟩
    · exact ⟨rfl, rfl⟩
  · split <;> exact ⟨rfl, rfl⟩

theorem Requests.hasBit {flags' : UInt8} (h : Requests v flags v' flags') :
    hasBit flags' Interrupt.stat.bit =
      (hasBit flags Interrupt.stat.bit || decide (Rises v v')) := by
  rw [h.flags]
  cases decide (Rises v v') with
  | false => exact (Bool.or_false _).symm
  | true =>
    rw [Interrupt.raise, if_pos rfl, hasBit_or]
    rfl

/-- The request of the vertical blank is another one. -/
theorem Requests.hasBit_vblank {flags' : UInt8} (h : Requests v flags v' flags') :
    Video.hasBit flags' Interrupt.vblank.bit = Video.hasBit flags Interrupt.vblank.bit := by
  rw [h.flags]
  cases decide (Rises v v') with
  | false => rfl
  | true =>
    rw [Interrupt.raise, if_pos rfl, hasBit_or]
    exact Bool.or_false _

/-- One dot requests the interrupt just if it makes the line rise. -/
theorem requests_tick (h : r.video.Settled) : r.tick.video.Settled ∧
    hasBit r.tick.flags Interrupt.stat.bit =
      (hasBit r.flags Interrupt.stat.bit || decide (Rises r.video r.tick.video)) := by
  rw [Run.tick]
  split
  · have hq : Requests r.video r.flags { r.video with clock := r.video.clock + 1 } r.flags :=
      .of_sources h (by rfl) r.flags
    exact ⟨hq.settled, hq.hasBit⟩
  · obtain ⟨hline, hflags⟩ := nextMode_beside r
    have hq : Requests r.video r.nextMode.flags r.nextMode.settle.video
        r.nextMode.settle.flags := by
      refine requests_updateStat (compared_compareLine _) ?_ r.nextMode.flags
      rw [statLine_compareLine, hline]
      exact h.line
    refine ⟨hq.settled, ?_⟩
    rw [hq.hasBit, hflags]

theorem Settled.advance (h : v.Settled) (dots : Nat) (flags : UInt8) :
    (v.advance dots flags).video.Settled := by
  rw [Video.advance]
  split
  · exact repeat_invariant (P := fun r : Run => r.video.Settled)
      (fun _ hr => (requests_tick hr).1) dots h
  · exact h

/-- A number of dots requests the interrupt just if one of them makes the line rise. -/
theorem hasBit_advance (h : v.Settled) (dots : Nat) (flags : UInt8) :
    hasBit (v.advance dots flags).flags Interrupt.stat.bit = true ↔
      hasBit flags Interrupt.stat.bit = true ∨
        ∃ k < dots, Rises (v.advance k flags).video (v.advance (k + 1) flags).video := by
  cases he : v.enabled with
  | false =>
    have hn (k : Nat) :
        ¬Rises (v.advance k flags).video (v.advance (k + 1) flags).video := fun hr =>
      not_statRaised_of_dark ((enabled_advance (k + 1) v flags).trans he) hr.2
    rw [advance_of_dark he]
    refine ⟨.inl, ?_⟩
    rintro (hf | ⟨k, -, hr⟩)
    · exact hf
    · exact absurd hr (hn k)
  | true =>
    induction dots with
    | zero =>
      rw [Video.advance, if_pos he]
      refine ⟨.inl, ?_⟩
      rintro (hf | ⟨k, hk, -⟩)
      · exact hf
      · exact absurd hk (Nat.not_lt_zero k)
    | succ dots ih =>
      rw [advance_succ he, (requests_tick (h.advance dots flags)).2, Bool.or_eq_true,
        decide_eq_true_iff, ih, ← advance_succ he, Nat.exists_lt_succ_right, or_assoc]

/-! ## Runs -/

def afterAll (calls : List Call) (v : Video) : Video :=
  calls.foldl (fun v c => (c.apply v).video) v

theorem Settled.apply (h : v.Settled) (c : Call) : (c.apply v).video.Settled := by
  cases c with
  | advance dots flags => exact h.advance dots flags
  | write address value flags => exact (requests_write h address value flags).settled
  | writeVram address value => exact h.congr (sources_writeVram v address value)
  | setMemory vram0 vram1 oam => exact h.congr rfl

theorem Settled.afterAll (h : v.Settled) (calls : List Call) : (v.afterAll calls).Settled := by
  induction calls generalizing v with
  | nil => exact h
  | cons c calls ih => exact ih (h.apply c)

theorem sources_boot (v : Video) : v.boot.sources =
    { enabled := hasBit 0x91 0x80, ly := 0, lyc := v.lyc, coincidence := v.lyc == 0, stat := 0x80,
      mode := .scan, statLine := false } := by
  rw [boot]
  simp only
  split <;> rfl

/-- No source is chosen at the start of a run. -/
theorem Start.settled (s : Start) : s.video.Settled := by
  cases s with
  | new cgb colorOutput =>
    have hd : enabled { cgb, colorOutput } = false := by
      change hasBit 0 0x80 = false
      decide
    refine ⟨fun he => absurd (hd.symm.trans he) nofun, ⟨nofun, fun hr => ?_⟩⟩
    exact absurd hr (not_statRaised_of_dark hd)
  | booted v =>
    have hs := sources_boot v
    have hn : ¬v.boot.StatRaised := by
      simp only [sources, Sources.mk.injEq] at hs
      obtain ⟨-, -, -, -, hstat, -, -⟩ := hs
      have hbits : hasBit 0x80 0x40 = false ∧ hasBit 0x80 0x08 = false ∧
          hasBit 0x80 0x10 = false ∧ hasBit 0x80 0x20 = false := by decide
      simp [StatRaised, hstat, hbits]
    simp only [sources, Sources.mk.injEq] at hs
    obtain ⟨-, hly, hlyc, hc, -, -, hline⟩ := hs
    refine ⟨fun _ => ?_, ?_⟩
    · change v.boot.coincidence = true ↔ v.boot.ly = v.boot.lyc.toNat
      rw [hc, hly, hlyc, beq_iff_eq, ← UInt8.toNat_inj]
      exact eq_comm
    · change v.boot.statLine = true ↔ v.boot.StatRaised
      rw [hline]
      exact ⟨nofun, fun hr => absurd hr hn⟩

/-- Whatever calls a unit was given, its comparison, while the screen is on, and the level of
its line are those of the registers. A write and a single dot request the status interrupt
just if the line rises with them, and a number of dots just if it rises with one of them.
While the screen is off, neither this interrupt nor that of the vertical blank is requested, and
no write requests the latter. -/
theorem stat_requested_on_rise (s : Start) (calls : List Call) (flags : UInt8) :
    let v := s.video.afterAll calls
    ((v.enabled = true → (v.coincidence = true ↔ v.ly = v.lyc.toNat)) ∧
      (v.statLine = true ↔ v.StatRaised)) ∧
    (∀ address value, (hasBit (v.write address value flags).2 Interrupt.stat.bit = true ↔
      hasBit flags Interrupt.stat.bit = true ∨ Rises v (v.write address value flags).1)) ∧
    (hasBit (v.advance 1 flags).flags Interrupt.stat.bit = true ↔
      hasBit flags Interrupt.stat.bit = true ∨ Rises v (v.advance 1 flags).video) ∧
    (∀ dots, (hasBit (v.advance dots flags).flags Interrupt.stat.bit = true ↔
      hasBit flags Interrupt.stat.bit = true ∨
        ∃ k < dots, Rises (v.advance k flags).video (v.advance (k + 1) flags).video)) ∧
    (∀ address value, hasBit (v.write address value flags).2 Interrupt.vblank.bit =
      hasBit flags Interrupt.vblank.bit) ∧
    (∀ address value, (v.write address value flags).1.enabled = false →
      (v.write address value flags).2 = flags) ∧
    (v.enabled = false → ∀ dots, (v.advance dots flags).flags = flags) := by
  have h := s.settled.afterAll calls
  intro v
  have hwrite := requests_write (v := v) h
  refine ⟨⟨h.compared, h.line⟩, fun address value => ?_, ?_,
    fun dots => hasBit_advance h dots flags,
    fun address value => (hwrite address value flags).hasBit_vblank,
    fun address value hd => (hwrite address value flags).of_dark hd, fun he dots => ?_⟩
  · rw [(hwrite address value flags).hasBit, Bool.or_eq_true, decide_eq_true_iff]
  · have hzero : (v.advance 0 flags).video = v := by
      rw [Video.advance]
      split <;> rfl
    have hone := hasBit_advance (v := v) h 1 flags
    rw [Nat.exists_lt_succ_right, hzero] at hone
    simpa only [Nat.not_lt_zero, false_and, exists_false, false_or] using hone
  · rw [advance_of_dark he]

end DotMatrix.Video
