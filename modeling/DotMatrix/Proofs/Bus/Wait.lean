import DotMatrix.Proofs.Bus.Objects

/-!
# The wait of the object transfer

The page may still change while the transfer waits. What it is in the end follows from the writes
that come in the wait and from the dots at which they come: a write may be lost while the video
unit draws, and another may take the time of the cartridge.
-/
namespace DotMatrix.Bus

open ObjectTransfer

variable {b : Bus} {source old : UInt16} {cycles : Nat} {calls : List Call}

/-! ## Writes and their time -/

/-- The writes that come while the transfer waits, each with the time that has passed before. A
portion lasts as long as `time` says. -/
def writesOfWait (time : Nat → Nat) : (cycles passed : Nat) → List Call →
    List (Nat × UInt16 × UInt8)
  | _, _, [] => []
  | cycles, passed, .advance n :: calls => writesOfWait time (cycles + n) (passed + time n) calls
  | cycles, passed, .write address value :: calls =>
    if cycles < objectDelay then (passed, address, value) :: writesOfWait time cycles passed calls
    else []

theorem writesOfWait_of_le (time : Nat → Nat) {cycles : Nat} (h : objectDelay ≤ cycles)
    (passed : Nat) (calls : List Call) : writesOfWait time cycles passed calls = [] := by
  induction calls generalizing cycles passed with
  | nil => rfl
  | cons call calls ih =>
    cases call with
    | advance n => exact ih (by omega) _
    | write a value => exact if_neg (by omega)

/-- The call lasts whole dots. -/
def Call.Whole (b : Bus) (call : Call) : Prop := b.doubleSpeed = true → call.lasts % 2 = 0

instance (b : Bus) (call : Call) : Decidable (call.Whole b) :=
  inferInstanceAs (Decidable (b.doubleSpeed = true → call.lasts % 2 = 0))

theorem Call.Whole.dotsIn_add {call : Call} (h : call.Whole b) (cycles : Nat) :
    b.dotsIn (cycles + call.lasts) = b.dotsIn cycles + b.dotsIn call.lasts := by
  simp only [dotsIn]
  split
  · rename_i hdouble
    have heven := h hdouble
    omega
  · rfl

/-- The cycles tell the dots where each call lasts whole dots. -/
theorem writesOfWait_dots (h : ∀ call ∈ calls, call.Whole b) (cycles passed : Nat) :
    writesOfWait b.dotsIn cycles (b.dotsIn passed) calls =
      (writesOfWait id cycles passed calls).map fun w => (b.dotsIn w.1, w.2) := by
  induction calls generalizing cycles passed with
  | nil => rfl
  | cons call calls ih =>
    have hrest : ∀ c ∈ calls, c.Whole b := fun c hc => h c (List.mem_cons_of_mem _ hc)
    cases call with
    | advance n =>
      have hwhole : b.dotsIn (passed + n) = b.dotsIn passed + b.dotsIn n :=
        (h (.advance n) List.mem_cons_self).dotsIn_add passed
      rw [writesOfWait, writesOfWait, ← hwhole]
      exact ih hrest _ _
    | write a value =>
      rw [writesOfWait, writesOfWait]
      split
      · rw [List.map_cons, ih hrest]
      · rfl

/-- Where the calls last whole dots, writes at the same cycles are writes at the same dots. -/
theorem writesOfWait_dotsIn_eq {calls' : List Call} (h : ∀ call ∈ calls, call.Whole b)
    (h' : ∀ call ∈ calls', call.Whole b)
    (hw : writesOfWait id 0 0 calls = writesOfWait id 0 0 calls') :
    writesOfWait b.dotsIn 0 0 calls = writesOfWait b.dotsIn 0 0 calls' := by
  have hzero : b.dotsIn 0 = 0 := by
    rw [dotsIn]
    split <;> rfl
  have hdots := writesOfWait_dots h 0 0
  have hdots' := writesOfWait_dots h' 0 0
  rw [hzero] at hdots hdots'
  rw [hdots, hdots', hw]

/-! ## The parts that matter -/

/-- The parts that decide which writes of the wait arrive, and where. -/
def bare (b : Bus) : Bus :=
  { b with
    requests := 0
    enables := 0
    highRam := default
    sound := default
    timer := {}
    joypad := {}
    objectTransfer := {}
    doubleSpeed := false
    speedArmed := false
    stall := 0 }

/-- Dots pass for the video unit and the clock of the cartridge. -/
def pass (dots : Nat) (b : Bus) : Bus :=
  { b with video := (b.video.advance dots 0).video, slot := b.slot.advance dots }

def replay : List (Nat × UInt16 × UInt8) → Nat → Bus → Bus
  | [], _, b => b
  | (dots, address, value) :: writes, before, b =>
    replay writes dots ((b.pass (dots - before)).write address value).bare

theorem content_bare (b : Bus) : b.bare.content = b.content := rfl

theorem content_pass (dots : Nat) (b : Bus) : (b.pass dots).content = b.content := by
  have hv := Video.readVram_of_cells (Video.cells_advance dots b.video 0)
  have hs := content_slot_advance dots b
  simp only [content] at hs ⊢
  rw [← hs]
  simp only [pass, hv]
  rfl

theorem pass_add (m n : Nat) (b : Bus) : b.pass (m + n) = (b.pass m).pass n := by
  simp only [pass]
  rw [Video.video_advance_add b.video m n 0 0, Slot.advance_add]

theorem pass_zero (h : b.slot.InRange) : b.pass 0 = b := by
  have hv : (b.video.advance 0 0).video = b.video := by
    rw [Video.advance]
    split <;> rfl
  rw [pass, hv, Slot.advance_zero h]

theorem bare_writeVideo (h : b.Unpaced) {a : UInt16} (ha : a ≠ 0xFF46) (value : UInt8) :
    (b.writeVideo a value).bare = (b.bare.writeVideo a value).bare := by
  have hbare : b.bare.Unpaced := h
  have hv := Video.video_write_flags b.video a value b.requests 0
  rw [writeVideo_of_unpaced h ha, writeVideo_of_unpaced hbare ha]
  simp only [bare, hv]

theorem bare_writeBlockTransfer (b : Bus) {a : UInt16} (ha : a ≠ 0xFF55) (value : UInt8) :
    (b.writeBlockTransfer a value).bare = (b.bare.writeBlockTransfer a value).bare := by
  have hblocks : b.bare.blockTransfer = b.blockTransfer := rfl
  simp only [writeBlockTransfer, if_neg ha, hblocks]
  split <;> rfl

theorem bare_writeRegion (h : b.Unpaced) {a : UInt16} (ha : a ∉ reserved) (r : Region)
    (value : UInt8) : (b.writeRegion r a value).bare = (b.bare.writeRegion r a value).bare := by
  have hcgb : b.bare.cgb = b.cgb := rfl
  cases r with
  | video => exact bare_writeVideo h (ne_of_reserved ha (by decide)) value
  | blockTransfer =>
    simp only [writeRegion, hcgb]
    split
    · exact bare_writeBlockTransfer b (ne_of_reserved ha (by decide)) value
    · rfl
  | speed | bootSwitch | workBank =>
    simp only [writeRegion, hcgb]
    split <;> rfl
  | joypad | timer => simp only [writeRegion, bare]
  | highRam index => simp only [writeRegion, bare]
  | _ => rfl

/-- What a write of the wait does to these parts is a matter of them alone. -/
theorem bare_write (h : b.Unpaced) (hb : b.objectsBusy = false) {a : UInt16} (ha : a ∉ reserved)
    (value : UInt8) : (b.write a value).bare = (b.bare.write a value).bare := by
  have hbare : b.bare.objectsBusy = false := rfl
  have hreach : b.bare.reachable (Region.decode a) = b.reachable (Region.decode a) := rfl
  simp only [write_eq, hb, hbare, hreach, Bool.false_and, Bool.false_eq_true, if_false]
  split
  · exact bare_writeRegion h ha _ value
  · rfl

/-! ## The wait in portions -/

theorem advanceObjects_of_wait (h : b.objectTransfer = progress old source cycles) {n : Nat}
    (hn : cycles + n ≤ objectDelay) : b.advanceObjects n =
      { b with objectTransfer := progress old source (cycles + n) } := by
  rw [advanceObjects_eq, h, wait_progress]
  split
  · exact moveObjects_zero _
  · have hover : max objectDelay cycles = cycles + n := by omega
    rw [hover, Nat.sub_self]
    exact moveObjects_zero _

/-- A portion of the wait passes the dots that it lasts. -/
theorem bare_advance (ht : Transferring old source cycles b) {n : Nat}
    (hn : cycles + n ≤ objectDelay) : (b.advance n).1.bare = b.bare.pass (b.dotsIn n) := by
  have hbefore := beforeObjects_of_unpaced ht.unpaced n
  have hengine := ht.engine_beforeObjects n
  have hv := Video.video_advance_flags (b.dotsIn n) b.video
    (b.timer.advance n b.requests).2 0
  rw [advance_fst, advanceObjects_of_wait hengine hn, hbefore]
  simp only [bare, pass, hv]

theorem dotsIn_of_speed {b' : Bus} (h : b'.doubleSpeed = b.doubleSpeed) : b'.dotsIn = b.dotsIn := by
  funext cycles
  rw [dotsIn, dotsIn, h]

/-- What the transfers read when the wait is over follows from the writes of the wait. -/
theorem content_afterCycles {base : Bus} (ht : Transferring old source cycles b)
    (hwait : cycles < objectDelay) {time : Nat → Nat} (htime : b.dotsIn = time)
    (hslot : base.slot.InRange) {last dots : Nat} (hle : last ≤ dots)
    (hbare : b.bare = base.pass (dots - last)) (ha : ∀ call ∈ calls, call.Allowed)
    (hover : objectDelay ≤ cycles + totalCycles calls) :
    (afterCycles (objectDelay - cycles) calls b).content =
      (replay (writesOfWait time cycles dots calls) last base).content := by
  induction calls generalizing b base cycles last dots with
  | nil => exact absurd hover (Nat.not_le.mpr hwait)
  | cons call calls ih =>
    have hcall := ha call List.mem_cons_self
    have hrest : ∀ c ∈ calls, c.Allowed := fun c hc => ha c (List.mem_cons_of_mem _ hc)
    have hnext := ht.apply hcall
    rw [totalCycles_cons, ← Nat.add_assoc] at hover
    cases call with
    | advance n =>
      have hdots : b.dotsIn n = time n := congrFun htime n
      by_cases hcross : objectDelay - cycles ≤ n
      · have hcontent : b.content = base.content := by
          rw [← content_bare, hbare, content_pass]
        rw [afterCycles, if_pos hcross, (ht.advance _).2.content, hcontent, writesOfWait,
          writesOfWait_of_le time (Nat.sub_le_iff_le_add'.mp hcross), replay]
      · have hlt : cycles + n < objectDelay := by omega
        rw [afterCycles, if_neg hcross, Nat.sub_sub, writesOfWait, ← hdots]
        refine ih hnext hlt ((dotsIn_of_speed (ht.advance n).2.speed).trans htime) hslot
          (by omega) ?_ hrest hover
        change (b.advance n).1.bare = _
        rw [bare_advance ht (Nat.le_of_lt hlt), hbare, ← pass_add, Nat.sub_add_comm hle]
    | write a value =>
      have hsteady := steady_write ht.unpaced hcall value
      have hidle : b.objectsBusy = false := by
        rw [ht.objectsBusy, decide_eq_false fun h => absurd h.1 (by omega)]
      have hwritten : (((base.pass (dots - last)).write a value).bare).slot.InRange :=
        (evolves_write (base.pass (dots - last)) a value).slot (hslot.advance _)
      rw [afterCycles, writesOfWait, if_pos hwait, replay]
      refine ih hnext hwait ((dotsIn_of_speed hsteady.speed).trans htime) hwritten
        (Nat.le_refl dots) ?_ hrest hover
      change (b.write a value).bare = _
      rw [bare_write ht.unpaced hidle hcall, hbare, Nat.sub_self, pass_zero hwritten]

/-- Where the wait sees the same writes at the same dots, it ends on the same memory. -/
theorem content_afterCycles_eq {s : Bus} {calls' : List Call} (ht : Transferring old source 0 s)
    (hslot : s.slot.InRange) (ha : ∀ call ∈ calls, call.Allowed)
    (ha' : ∀ call ∈ calls', call.Allowed) (hover : objectDelay ≤ totalCycles calls)
    (hover' : objectDelay ≤ totalCycles calls')
    (hw : writesOfWait s.dotsIn 0 0 calls = writesOfWait s.dotsIn 0 0 calls') :
    (afterCycles objectDelay calls s).content = (afterCycles objectDelay calls' s).content := by
  have hwait : 0 < objectDelay := by decide
  have hbare : s.bare = s.bare.pass (0 - 0) := (pass_zero (b := s.bare) hslot).symm
  have hslot : s.bare.slot.InRange := hslot
  have hcontent :=
    content_afterCycles ht hwait (Eq.refl s.dotsIn) hslot (Nat.le_refl 0) hbare ha (by omega)
  have hcontent' :=
    content_afterCycles ht hwait (Eq.refl s.dotsIn) hslot (Nat.le_refl 0) hbare ha' (by omega)
  rw [Nat.sub_zero] at hcontent hcontent'
  rw [hcontent, hcontent', hw]

end DotMatrix.Bus
