import DotMatrix.Proofs.Bus.Wait

/-!
# The delivery of a page

A page that was requested arrives as it stood when the wait was over, whatever the calls
between do and however they portion the cycles. The only way in which portions matter is the
one that all of the bus knows: a write comes at some dot, and finds the video unit there.
-/
namespace DotMatrix.Bus

open ObjectTransfer

variable {b : Bus} {source old : UInt16} {cycles : Nat} {calls : List Call}

/-! ## The table fills -/

/-- The bytes whose cycles have passed are in the table, and the others are still where they come
from. -/
structure Filled (page : Nat → UInt8) (source : UInt16) (cycles : Nat) (b : Bus) : Prop where
  kept : ∀ i < 4 * Video.objectCount, b.pageByte source i = page i
  filled : ∀ i < 4 * Video.objectCount, objectDelay + 4 * i < cycles → b.video.oam.get i = page i

variable {page : Nat → UInt8}

theorem Filled.advance (h : Filled page source cycles b) (ht : Transferring old source cycles b)
    (n : Nat) : Filled page source (cycles + n) (b.advance n).1 := by
  obtain ⟨-, hp⟩ := ht.advance n
  refine ⟨fun i hi => (pageByte_of_content hp.content source i).trans (h.kept i hi),
    fun i hi hlt => ?_⟩
  rw [hp.oam i hi]
  split
  · exact h.kept i hi
  · exact h.filled i hi (by omega)

theorem Filled.write (h : Filled page source cycles b) (ht : Transferring old source cycles b)
    (hstart : objectDelay ≤ cycles) (hend : cycles < duration) {a : UInt16} (ha : a ∉ reserved)
    (value : UInt8) : Filled page source cycles (b.write a value) := by
  have hbusy : b.objectsBusy = true := by
    rw [ht.objectsBusy, decide_eq_true ⟨hstart, hend⟩]
  have hb := beside_write_of_busy ht.unpaced hbusy ha value
  refine ⟨fun i hi => (pageByte_of_content hb.content source i).trans (h.kept i hi),
    fun i hi hlt => ?_⟩
  rw [hb.oam]
  exact h.filled i hi hlt

theorem Filled.run (h : Filled page source cycles b) (ht : Transferring old source cycles b)
    (hstart : objectDelay ≤ cycles) (ha : ∀ call ∈ calls, call.Allowed)
    (hin : InTime cycles calls) :
    Filled page source (cycles + totalCycles calls) (run calls b) := by
  induction calls generalizing b cycles with
  | nil => exact h
  | cons call calls ih =>
    have hcall := ha call List.mem_cons_self
    have hnext : Filled page source (cycles + call.lasts) (call.apply b) := by
      cases call with
      | advance n => exact h.advance ht n
      | write a value => exact h.write ht hstart hin.1 hcall value
    rw [run_cons, totalCycles_cons, ← Nat.add_assoc]
    exact ih hnext (ht.apply hcall) (by omega) (fun c hc => ha c (List.mem_cons_of_mem _ hc)) hin.2

/-- The portion in which the wait ends may already move bytes. -/
theorem filled_advance (ht : Transferring old source cycles b) (hwait : cycles < objectDelay)
    (n : Nat) : Filled (b.pageByte source) source (cycles + n) (b.advance n).1 := by
  obtain ⟨-, hp⟩ := ht.advance n
  refine ⟨fun i _ => pageByte_of_content hp.content source i, fun i hi hlt => ?_⟩
  rw [hp.oam i hi, if_pos (by omega)]

/-- The page arrives as it was when the wait was over. -/
theorem filled_run (ht : Transferring old source cycles b) (hwait : cycles < objectDelay)
    (ha : ∀ call ∈ calls, call.Allowed) (hin : InTime cycles calls)
    (hover : objectDelay ≤ cycles + totalCycles calls) :
    Filled ((afterCycles (objectDelay - cycles) calls b).pageByte source) source
      (cycles + totalCycles calls) (run calls b) := by
  induction calls generalizing b cycles with
  | nil => exact absurd hover (Nat.not_le.mpr hwait)
  | cons call calls ih =>
    have hrest : ∀ c ∈ calls, c.Allowed := fun c hc => ha c (List.mem_cons_of_mem _ hc)
    have hnext := ht.apply (ha call List.mem_cons_self)
    rw [totalCycles_cons, ← Nat.add_assoc] at hover ⊢
    rw [run_cons]
    cases call with
    | write a value => exact ih hnext hwait hrest hin.2 hover
    | advance n =>
      by_cases hcross : objectDelay - cycles ≤ n
      · have hpage : (b.advance (objectDelay - cycles)).1.pageByte source = b.pageByte source :=
          funext fun i => pageByte_of_content (ht.advance _).2.content source i
        rw [afterCycles, if_pos hcross, hpage]
        exact (filled_advance ht hwait n).run hnext
          (Nat.sub_le_iff_le_add'.mp hcross) hrest hin.2
      · rw [afterCycles, if_neg hcross, Nat.sub_sub]
        exact ih hnext (by omega) hrest hin.2 hover

/-! ## The bytes that move -/

/-- A call moves the bytes that are next. -/
theorem range_movedBy_moved (h : b.objectTransfer = progress old source cycles) (call : Call) :
    List.range (movedBy cycles) ++ call.moved b = List.range (movedBy (cycles + call.lasts)) := by
  cases call with
  | write a value => exact List.append_nil _
  | advance n =>
    have hle : movedBy cycles ≤ movedBy (cycles + n) := by
      simp only [movedBy, byteFrom]
      omega
    have hpieces := @List.range'_append_1 0 (movedBy cycles) (movedBy (cycles + n) - movedBy cycles)
    rw [Nat.zero_add, Nat.add_sub_of_le hle] at hpieces
    rw [Call.moved, h, moved_progress, List.range_eq_range', List.range_eq_range']
    exact hpieces

theorem range_movedBy_moves (ht : Transferring old source cycles b)
    (ha : ∀ call ∈ calls, call.Allowed) :
    List.range (movedBy cycles) ++ moves calls b =
      List.range (movedBy (cycles + totalCycles calls)) := by
  induction calls generalizing b cycles with
  | nil => exact List.append_nil _
  | cons call calls ih =>
    rw [moves, ← List.append_assoc, range_movedBy_moved ht.engine, totalCycles_cons,
      ← Nat.add_assoc]
    exact ih (ht.apply (ha call List.mem_cons_self)) fun c hc => ha c (List.mem_cons_of_mem _ hc)

/-- A byte that does not move in a portion stays. -/
theorem oam_advance_of_notMem (ht : Transferring old source cycles b) (n : Nat) {i : Nat}
    (hi : i < 4 * Video.objectCount) (hm : i ∉ (Call.advance n).moved b) :
    (b.advance n).1.video.oam.get i = b.video.oam.get i := by
  rw [(ht.advance n).2.oam i hi, if_neg]
  rwa [← mem_moved ht.engine n hi]

/-- A portion of time is for the transfer its cycles one by one. -/
theorem advance_eq_repeat_tick (ht : Transferring old source cycles b) (n : Nat) :
    (b.advance n).1 =
      let ticked := Nat.repeat tickObjects n (b.beforeObjects n)
      { ticked with slot := ticked.slot.advance (b.dotsIn n) } := by
  have hcount : (b.beforeObjects n).objectTransfer.remaining ≤ objectCycles := by
    rw [ht.engine_beforeObjects n]
    exact remaining_progress_le old source cycles
  rw [advance_fst, advanceObjects_eq_repeat_tick hcount]

/-! ## The transfer of a page -/

/-- What the transfer of a page does along calls that are made before it ends, in the bus `s` that
the request left. -/
structure Delivers (source : UInt16) (s : Bus) (calls : List Call) : Prop where
  /-- The transfer holds the bus from the end of the wait to its own. -/
  busy : (run calls s).objectsBusy = true ↔ 8 ≤ totalCycles calls ∧ totalCycles calls < 8 + 640
  /-- Meanwhile the processor reads the high RAM alone. -/
  read : (run calls s).objectsBusy = true →
    ∀ a, ¬(0xFF80 ≤ a ∧ a ≤ 0xFFFE) → (run calls s).read a = 0xFF
  /-- It writes to the registers and the high RAM alone. -/
  write : (run calls s).objectsBusy = true →
    ∀ a < 0xFF00, ∀ value, (run calls s).write a value = run calls s
  /-- So it does not reach the table. -/
  locked : (run calls s).objectsBusy = true →
    ∀ a ∉ reserved, ∀ value, ((run calls s).write a value).video.oam = (run calls s).video.oam
  /-- A portion of time is for the transfer its cycles one by one. -/
  cycles : ∀ n, ((run calls s).advance n).1 =
    let ticked := Nat.repeat tickObjects n ((run calls s).beforeObjects n)
    { ticked with slot := ticked.slot.advance ((run calls s).dotsIn n) }
  /-- Bytes that do not move in a portion of time stay as they are in the table. -/
  stays : ∀ n, ∀ i < 160, i ∉ (Call.advance n).moved (run calls s) →
    ((run calls s).advance n).1.video.oam.get i = (run calls s).video.oam.get i
  /-- Each byte moves once. -/
  once : 8 + 640 ≤ totalCycles calls → moves calls s = List.range 160
  /-- The table is the page as it was when the wait was over. -/
  table : 8 + 640 ≤ totalCycles calls → ∀ i < 160,
    (run calls s).video.oam.get i =
      (afterCycles 8 calls s).readUnlocked (objectSource (source + UInt16.ofNat i))

theorem delivers {s : Bus} (ht : Transferring old source 0 s)
    (ha : ∀ call ∈ calls, call.Allowed) (hin : InTime 0 calls) : Delivers source s calls := by
  have hd : objectDelay = 8 := rfl
  have hrun := ht.run ha
  rw [Nat.zero_add] at hrun
  have hbusy : (run calls s).objectsBusy = true ↔
      8 ≤ totalCycles calls ∧ totalCycles calls < 8 + 640 := by
    rw [hrun.objectsBusy]
    exact decide_eq_true_iff
  refine ⟨hbusy, fun hb a hh => read_of_busy hb hh,
    fun hb a hlow value => write_of_busy hb hlow value,
    fun hb a hr value => (beside_write_of_busy hrun.unpaced hb hr value).oam,
    advance_eq_repeat_tick hrun, fun n i hi hm => oam_advance_of_notMem hrun n hi hm,
    fun hend => ?_, fun hend i hi => ?_⟩
  · have hmoves := range_movedBy_moves ht ha
    have hall : movedBy (totalCycles calls) = 160 := by
      apply Nat.min_eq_right
      change 160 ≤ (totalCycles calls - objectDelay + 3) / 4
      omega
    rw [Nat.zero_add, hall] at hmoves
    exact hmoves
  · have hfilled := filled_run ht (by omega) ha hin (by omega)
    exact hfilled.filled i hi (by omega)

theorem write_objectRequest (b : Bus) (page : UInt8) : b.write 0xFF46 page =
    { b with video := { b.video with dma := page } }.requestObjects page := by
  have hw : b.write 0xFF46 page = b.writeVideo 0xFF46 page := write_register (by decide) b page
  have hon : (b.video.enabled && !b.video.enabled) = false := Bool.and_not_self _
  rw [hw, writeVideo]
  change (if b.video.enabled && !b.video.enabled then _ else _) = _
  rw [hon]
  rfl

theorem content_write_objectRequest (b : Bus) (page : UInt8) :
    (b.write 0xFF46 page).content = b.content := by
  rw [write_objectRequest]
  rfl

/-- A request begins the wait, and takes the place of one that was pending. -/
theorem transferring_request (h : b.Unpaced) (hb : b.objectsBusy = false) (page : UInt8) :
    Transferring b.objectTransfer.source (0x100 * page.toUInt16) 0 (b.write 0xFF46 page) := by
  have hremaining : b.objectTransfer.remaining = 0 := by
    rw [objectsBusy, decide_eq_false_iff_not] at hb
    omega
  rw [write_objectRequest]
  refine ⟨?_, h⟩
  simp only [requestObjects, hremaining]
  rfl

/-- Calls that carry a transfer to its end. -/
structure Completes (calls : List Call) : Prop where
  allowed : ∀ call ∈ calls, call.Allowed
  inTime : InTime 0 calls
  ended : 8 + 640 ≤ totalCycles calls

/-- The table does not depend on how the cycles are portioned, as long as the writes of the wait
come at the same dots. -/
theorem oam_eq_of_writesOfWait {s : Bus} {calls' : List Call} (ht : Transferring old source 0 s)
    (hslot : s.slot.InRange) (hc : Completes calls) (hc' : Completes calls')
    (hw : writesOfWait s.dotsIn 0 0 calls = writesOfWait s.dotsIn 0 0 calls') {i : Nat}
    (hi : i < 160) : (run calls s).video.oam.get i = (run calls' s).video.oam.get i := by
  have hd : objectDelay = 8 := rfl
  have hover := hc.ended
  have hover' := hc'.ended
  have hcontent :=
    content_afterCycles_eq ht hslot hc.allowed hc'.allowed (by omega) (by omega) hw
  rw [(delivers ht hc.allowed hc.inTime).table hover i hi,
    (delivers ht hc'.allowed hc'.inTime).table hover' i hi]
  exact pageByte_of_content hcontent _ i

/-- A portion of cycles is those cycles one by one, in every transfer that has no more left than
there are. A page that is requested arrives as it is when the wait is over, whatever happens in
between. Two ways to portion the cycles give the same table where the writes of the wait come at
the same dots, and so at the same cycles where no portion ends between two dots. -/
theorem object_transfer_delivers (b : Bus) (page : UInt8) (hidle : b.objectsBusy = false)
    (hblocks : (b.blockTransfer.active && b.blockTransfer.paced) = false) :
    let s := b.write 0xFF46 page
    (∀ x : Bus, x.objectTransfer.remaining ≤ 640 → ∀ n,
      x.advanceObjects n = Nat.repeat tickObjects n x) ∧
    (∀ calls, (∀ call ∈ calls, call.Allowed) → InTime 0 calls →
      Delivers (0x100 * page.toUInt16) s calls) ∧
    (b.slot.InRange → ∀ calls calls', Completes calls → Completes calls' →
      (writesOfWait s.dotsIn 0 0 calls = writesOfWait s.dotsIn 0 0 calls' ∨
        (∀ call ∈ calls ++ calls', call.Whole s) ∧
          writesOfWait id 0 0 calls = writesOfWait id 0 0 calls') →
      ∀ i < 160, (run calls s).video.oam.get i = (run calls' s).video.oam.get i) := by
  intro s
  have ht := transferring_request hblocks hidle page
  refine ⟨fun x hcount => advanceObjects_eq_repeat_tick hcount,
    fun calls ha hin => delivers ht ha hin, fun hslot calls calls' hc hc' hw i hi => ?_⟩
  have hs : s.slot.InRange := (evolves_write b 0xFF46 page).slot hslot
  have hdots : writesOfWait s.dotsIn 0 0 calls = writesOfWait s.dotsIn 0 0 calls' := by
    obtain hdots | ⟨hwhole, hcycles⟩ := hw
    · exact hdots
    · exact writesOfWait_dotsIn_eq (fun c hc => hwhole c (List.mem_append_left _ hc))
        (fun c hc => hwhole c (List.mem_append_right _ hc)) hcycles
  exact oam_eq_of_writesOfWait ht hs hc hc' hdots hi

/-- A byte of the page is written while the transfer waits, and another when it has begun. -/
def portions (wait : List Nat) : List Call :=
  wait.map .advance ++ [.write 0xC005 0xAB, .advance 90, .write 0xC006 0xCD, .advance 700]

theorem object_transfer_delivers_portions :
    let b := Bus.new default .dmg false 44100
    let s := b.write 0xFF46 0xC0
    b.objectsBusy = false ∧ (b.blockTransfer.active && b.blockTransfer.paced) = false ∧
      b.slot.InRange ∧ Completes (portions [5]) ∧ Completes (portions [1, 0, 4]) ∧
      Delivers 0xC000 s (portions [5]) ∧
      ∀ i < 160, (run (portions [5]) s).video.oam.get i =
        (run (portions [1, 0, 4]) s).video.oam.get i := by
  intro b s
  have h := object_transfer_delivers b 0xC0 rfl rfl
  have hc : Completes (portions [5]) := ⟨by decide, by decide, by decide⟩
  have hc' : Completes (portions [1, 0, 4]) := ⟨by decide, by decide, by decide⟩
  have hwhole : ∀ call ∈ portions [5] ++ portions [1, 0, 4], call.Whole s := by decide
  exact ⟨rfl, rfl, trivial, hc, hc', h.2.1 _ hc.allowed hc.inTime,
    h.2.2 trivial _ _ hc hc' (.inr ⟨hwhole, by decide⟩)⟩

/-! ## Portions that end between two dots -/

/-- A write to video memory arrives unless the video unit draws. -/
theorem readUnlocked_write_videoRam (h : b.objectsBusy = false) {a : UInt16}
    (ha : Region.decode a = .videoRam) (value : UInt8) : (b.write a value).readUnlocked a =
      if b.reachable .videoRam then value else b.readUnlocked a := by
  simp only [write_eq, h, ha, Bool.false_and, Bool.false_eq_true, if_false]
  split
  · rw [readUnlocked_eq, ha]
    exact Video.readVram_writeVram b.video a value
  · rfl

/-- Portions of time leave the memory as it is. -/
theorem content_run_advance (ht : Transferring old source cycles b) (portions : List Nat) :
    (run (portions.map .advance) b).content = b.content := by
  induction portions generalizing b cycles with
  | nil => rfl
  | cons n portions ih =>
    obtain ⟨hnext, hportion⟩ := ht.advance n
    exact (ih hnext).trans hportion.content

/-- A byte of video memory is written between two portions of the wait. -/
def interrupted (wait : List Nat) : List Call :=
  wait.map .advance ++ [.write 0x8000 0xAB, .advance 644]

/-- The write arrives in the table unless the video unit draws. -/
theorem table_interrupted {s : Bus} (ht : Transferring old 0x8000 0 s) {wait : List Nat}
    (hc : Completes (interrupted wait)) (hw : totalCycles (wait.map .advance) = 4) :
    (run (interrupted wait) s).video.oam.get 0 =
      if (run (wait.map .advance) s).reachable .videoRam then 0xAB else s.readUnlocked 0x8000 := by
  have hwait : ∀ call ∈ wait.map Call.advance, call.Allowed := fun call hcall =>
    hc.allowed call (List.mem_append_left _ hcall)
  have hx := ht.run hwait
  have hcontent := content_run_advance ht wait
  have hpage : objectSource (0x8000 + UInt16.ofNat 0) = 0x8000 := by decide
  rw [(delivers ht hc.allowed hc.inTime).table hc.ended 0 (by decide), hpage, interrupted,
    afterCycles_append (by rw [hw]; decide), hw]
  generalize run (wait.map .advance) s = x at *
  have hidle : x.objectsBusy = false := by
    rw [hx.objectsBusy, hw]
    rfl
  have hwritten := (steady_write hx.unpaced (a := 0x8000) (by decide) 0xAB).unpaced
  change ((x.write 0x8000 0xAB).advance 4).1.readUnlocked 0x8000 = _
  rw [readUnlocked_of_content (content_advance hwritten 4) (by decide),
    readUnlocked_write_videoRam hidle (by decide), readUnlocked_of_content hcontent (by decide)]

/-- The screen is on at double speed, and the object scan ends in two dots. -/
@[irreducible] def lateScan : Bus :=
  let b := (Bus.new default .cgb true 44100).switchSpeed
  (((b.write 0x8000 0x00).write 0xFF40 0x80).advance 156).1

theorem slot_inRange_lateScan : lateScan.slot.InRange := by
  have hnew : (Bus.new default .cgb true 44100).slot.InRange := trivial
  have hswitched := (evolves_switchSpeed _).slot hnew
  unfold lateScan
  generalize (Bus.new default .cgb true 44100).switchSpeed = b at *
  have hwritten := (evolves_write b 0x8000 0x00).slot hswitched
  have hon := (evolves_write _ 0xFF40 0x80).slot hwritten
  exact (evolves_advance 156 _).slot hon

theorem readUnlocked_lateScan : (lateScan.write 0xFF46 0x80).readUnlocked 0x8000 = 0x00 := by
  unfold lateScan
  generalize hb : (Bus.new default .cgb true 44100).switchSpeed = b
  have hunpaced : b.Unpaced := hb ▸ rfl
  have hidle : b.objectsBusy = false := hb ▸ rfl
  have hopen : b.reachable .videoRam = true := hb ▸ rfl
  have hwritten := (steady_write hunpaced (a := 0x8000) (by decide) 0x00).unpaced
  have hon := beside_write hwritten (a := 0xFF40) (by decide) (by decide) 0x80
  have hscan := (content_advance hon.unpaced 156).trans hon.content
  rw [readUnlocked_of_content ((content_write_objectRequest _ 0x80).trans hscan) (by decide),
    readUnlocked_write_videoRam hidle (by decide), if_pos hopen]

/-- Four cycles of the wait are two dots at once, and no dot one by one. -/
theorem table_depends_on_odd_portions :
    let s := lateScan.write 0xFF46 0x80
    lateScan.objectsBusy = false ∧
      (lateScan.blockTransfer.active && lateScan.blockTransfer.paced) = false ∧
      lateScan.slot.InRange ∧
      Completes (interrupted [4]) ∧ Completes (interrupted [1, 1, 1, 1]) ∧
      writesOfWait id 0 0 (interrupted [4]) = writesOfWait id 0 0 (interrupted [1, 1, 1, 1]) ∧
      (run (interrupted [4]) s).video.oam.get 0 = 0x00 ∧
      (run (interrupted [1, 1, 1, 1]) s).video.oam.get 0 = 0xAB := by
  intro s
  have hbusy : lateScan.objectsBusy = false := by decide +kernel
  have hblocks : (lateScan.blockTransfer.active && lateScan.blockTransfer.paced) = false := by
    decide +kernel
  have hpage : 0x100 * (0x80 : UInt8).toUInt16 = 0x8000 := by decide
  have ht := transferring_request hblocks hbusy 0x80
  rw [hpage] at ht
  have hc : Completes (interrupted [4]) := ⟨by decide, by decide, by decide⟩
  have hc' : Completes (interrupted [1, 1, 1, 1]) := ⟨by decide, by decide, by decide⟩
  refine ⟨hbusy, hblocks, slot_inRange_lateScan, hc, hc', by decide, ?_, ?_⟩
  · have hdraws : (run [.advance 4] s).reachable .videoRam = false := by decide +kernel
    rw [table_interrupted ht hc (by decide), ← readUnlocked_lateScan]
    exact if_neg (by rw [Bool.not_eq_true]; exact hdraws)
  · have hscans : (run [.advance 1, .advance 1, .advance 1, .advance 1] s).reachable .videoRam =
        true := by
      decide +kernel
    rw [table_interrupted ht hc' (by decide)]
    exact if_pos hscans

end DotMatrix.Bus
