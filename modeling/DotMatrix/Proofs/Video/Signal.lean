import DotMatrix.Proofs.Video.Painter
import DotMatrix.Proofs.Word
import DotMatrix.Video.Registers
import Mathlib.Data.List.Basic

/-!
# The signals of the video unit

From outside, a unit is a sequence of signals: the screen is switched, a line is delivered,
a vertical blank begins. Each dot and each write moves the unit from one place of the frame
to another, and what it reports of itself is just the signals that go with these moves.
-/
namespace DotMatrix.Video

/-! ## What is seen of the unit -/

inductive Signal where
  | off
  | on
  | line (n : Nat)
  | vblank
deriving DecidableEq, Repr

def switched : Bool → Bool → List Signal
  | true, false => [.off]
  | false, true => [.on]
  | _, _ => []

/-- The signals as `v` becomes `v'`: its switch is compared, the lines are those it has
finished beyond the ones that waited, and a vertical blank has changed the number of frames. -/
def heard (v v' : Video) : List Signal :=
  switched v.enabled v'.enabled ++
    ((v'.finished.toList.drop v.finished.size).map fun s => Signal.line s.line) ++
    if v'.frames = v.frames then [] else [Signal.vblank]

/-- A call of the unit, with the interrupt flags that it is given. -/
inductive Call where
  | advance (dots : Nat) (flags : UInt8)
  | write (address : UInt16) (value flags : UInt8)
  | writeVram (address : UInt16) (value : UInt8)
  /-- Video memory and the object table are set past the registers. -/
  | setMemory (vram0 vram1 : Memory bankSize) (oam : Memory (4 * objectCount))

namespace Call

def start (v : Video) : Call → Run
  | advance _ flags => { video := v, flags }
  | write _ _ flags => { video := v, flags }
  | writeVram .. => { video := v, flags := 0 }
  | setMemory .. => { video := v, flags := 0 }

def apply (v : Video) : Call → Run
  | advance dots flags => v.advance dots flags
  | write address value flags =>
    { video := (v.write address value flags).1, flags := (v.write address value flags).2 }
  | writeVram address value => { video := v.writeVram address value, flags := 0 }
  | setMemory vram0 vram1 oam => { video := { v with vram0, vram1, oam }, flags := 0 }

/-- The signals of a call. Those of a number of dots are heard dot by dot. -/
def signals (v : Video) : Call → List Signal
  | advance dots flags => (List.range dots).flatMap fun k =>
    heard (v.advance k flags).video (v.advance (k + 1) flags).video
  | write address value flags => heard v (v.write address value flags).1
  | writeVram address value => heard v (v.writeVram address value)
  | setMemory vram0 vram1 oam => heard v { v with vram0, vram1, oam }

end Call

def trace : List Call → Video → List Signal
  | [], _ => []
  | c :: cs, v => c.signals v ++ trace cs (c.apply v).video

/-! ## Places of the frame -/

inductive Place where
  | dark
  | lit (mode : Mode) (ly : Nat)

def place (v : Video) : Place := if v.enabled then .lit v.mode v.ly else .dark

/-- What one dot or one write does to the place, and the signals that go with it. -/
inductive Move : Place → List Signal → Place → Prop
  | stay (p : Place) : Move p [] p
  | transfer (ly : Nat) : Move (.lit .scan ly) [] (.lit .transfer ly)
  | hblank (ly : Nat) : Move (.lit .transfer ly) [.line ly] (.lit .hblank ly)
  | scan {ly : Nat} (h : ly + 1 ≠ screenHeight) :
      Move (.lit .hblank ly) [] (.lit .scan (ly + 1))
  | vblank {ly : Nat} (h : ly + 1 = screenHeight) :
      Move (.lit .hblank ly) [.vblank] (.lit .vblank (ly + 1))
  | blankLine {ly : Nat} (h : ly ≠ lastLine) :
      Move (.lit .vblank ly) [] (.lit .vblank (ly + 1))
  | top : Move (.lit .vblank lastLine) [] (.lit .scan 0)
  | off (m : Mode) (ly : Nat) : Move (.lit m ly) [.off] .dark
  | on : Move .dark [.on] (.lit .scan 0)

inductive Moves : Place → List Signal → Place → Prop
  | nil (p : Place) : Moves p [] p
  | cons {p q r : Place} {l l' : List Signal} (h : Move p l q) (ht : Moves q l' r) :
      Moves p (l ++ l') r

theorem Move.moves {p q : Place} {l : List Signal} (h : Move p l q) : Moves p l q := by
  have hm := Moves.cons h (.nil q)
  rwa [List.append_nil] at hm

theorem Moves.trans {p q r : Place} {l l' : List Signal} (h : Moves p l q) (h' : Moves q l' r) :
    Moves p (l ++ l') r := by
  induction h with
  | nil p => exact h'
  | cons hm ht ih =>
    rw [List.append_assoc]
    exact .cons hm (ih h')

/-! ## Signals and what a call reports -/

def Signal.line? : Signal → Option Nat
  | .line n => some n
  | _ => none

/-- Only the switch is heard. -/
def Quiet (l : List Signal) : Prop := ∀ s ∈ l, s = .off ∨ s = .on

theorem quiet_nil : Quiet [] := fun _ h => absurd h List.not_mem_nil

theorem Quiet.not_mem_vblank {l : List Signal} (h : Quiet l) : Signal.vblank ∉ l := fun hm =>
  (h _ hm).elim nofun nofun

theorem Quiet.filterMap_line? {l : List Signal} (h : Quiet l) :
    l.filterMap Signal.line? = [] := by
  rw [List.filterMap_eq_nil_iff]
  intro s hs
  obtain rfl | rfl := h s hs <;> rfl

theorem quiet_switched (b b' : Bool) : Quiet (switched b b') := by
  cases b <;> cases b' <;> simp [Quiet, switched]

/-- From `r` to `r'` the unit has reported just these signals: the lines are those it has
finished, and with each vertical blank it has counted a frame, raised the event and
requested the interrupt. -/
structure Run.Reports (r : Run) (l : List Signal) (r' : Run) : Prop where
  lines : ∃ new : List Scanline, r'.video.finished.toList = r.video.finished.toList ++ new ∧
    l.filterMap Signal.line? = new.map (·.line)
  frames : r'.video.frames = r.video.frames + UInt64.ofNat (l.count .vblank)
  event : r'.vblank = (r.vblank || decide (Signal.vblank ∈ l))
  request : hasBit r'.flags Interrupt.vblank.bit =
    (hasBit r.flags Interrupt.vblank.bit || decide (Signal.vblank ∈ l))

/-- Besides, the place has moved with them. -/
structure Run.Emits (r : Run) (l : List Signal) (r' : Run) : Prop extends r.Reports l r' where
  moves : Moves r.video.place l r'.video.place

namespace Run

variable {r r' r'' : Run} {l l' : List Signal}

theorem Reports.refl (r : Run) : r.Reports [] r :=
  ⟨⟨[], (List.append_nil _).symm, rfl⟩, (UInt64.add_zero _).symm, (Bool.or_false _).symm,
    (Bool.or_false _).symm⟩

theorem Reports.trans (h : r.Reports l r') (h' : r'.Reports l' r'') :
    r.Reports (l ++ l') r'' := by
  obtain ⟨new, hf, hl⟩ := h.lines
  obtain ⟨new', hf', hl'⟩ := h'.lines
  refine ⟨⟨new ++ new', ?_, ?_⟩, ?_, ?_, ?_⟩
  · rw [hf', hf, List.append_assoc]
  · rw [List.filterMap_append, List.map_append, hl, hl']
  · rw [h'.frames, h.frames, List.count_append, UInt64.ofNat_add, UInt64.add_assoc]
  · rw [h'.event, h.event, Bool.or_assoc, ← Bool.decide_or]
    simp only [List.mem_append]
  · rw [h'.request, h.request, Bool.or_assoc, ← Bool.decide_or]
    simp only [List.mem_append]

theorem Emits.refl (r : Run) : r.Emits [] r := ⟨.refl r, .nil _⟩

theorem Emits.trans (h : r.Emits l r') (h' : r'.Emits l' r'') : r.Emits (l ++ l') r'' :=
  ⟨h.toReports.trans h'.toReports, h.moves.trans h'.moves⟩

end Run

/-! ## The outline of a unit -/

/-- What the place and the signals depend on. -/
structure Outline where
  enabled : Bool
  mode : Mode
  ly : Nat
  finished : Array Scanline
  frames : UInt64

def outline (v : Video) : Outline where
  enabled := v.enabled
  mode := v.mode
  ly := v.ly
  finished := v.finished
  frames := v.frames

variable {v v' : Video}

theorem place_congr (h : v'.outline = v.outline) : v'.place = v.place := by
  have he : v'.enabled = v.enabled := congrArg Outline.enabled h
  have hm : v'.mode = v.mode := congrArg Outline.mode h
  have hl : v'.ly = v.ly := congrArg Outline.ly h
  rw [place, place, he, hm, hl]

theorem place_of_enabled (h : v.enabled = true) : v.place = .lit v.mode v.ly := if_pos h

theorem place_of_dark (h : v.enabled = false) : v.place = .dark := if_neg (by simp [h])

theorem place_of_outline {o : Outline} (h : v.outline = o) (he : o.enabled = true) :
    v.place = .lit o.mode o.ly := by
  subst h
  exact place_of_enabled he

theorem heard_congr (u : Video) (h : v'.outline = v.outline) : heard u v' = heard u v := by
  have he : v'.enabled = v.enabled := congrArg Outline.enabled h
  have hf : v'.finished = v.finished := congrArg Outline.finished h
  have hn : v'.frames = v.frames := congrArg Outline.frames h
  rw [heard, heard, he, hf, hn]

theorem switched_self (b : Bool) : switched b b = [] := by cases b <;> rfl

/-- Where no line is finished and no frame is counted, only the switch is heard. -/
theorem heard_of_waiting (hf : v'.finished = v.finished) (hn : v'.frames = v.frames) :
    heard v v' = switched v.enabled v'.enabled := by
  have hd : v.finished.toList.drop v.finished.size = [] := List.drop_length
  rw [heard, hf, hn, if_pos rfl, hd]
  simp only [List.map_nil, List.append_nil]

theorem heard_self (v : Video) : heard v v = [] := by
  rw [heard_of_waiting rfl rfl, switched_self]

theorem heard_push {s : Scanline} (he : v'.enabled = v.enabled)
    (hf : v'.finished = v.finished.push s) (hn : v'.frames = v.frames) :
    heard v v' = [.line s.line] := by
  have hd : v'.finished.toList.drop v.finished.size = [s] := by
    rw [hf, Array.toList_push]
    exact List.drop_left
  rw [heard, he, hn, if_pos rfl, hd, switched_self]
  rfl

theorem heard_frame (he : v'.enabled = v.enabled) (hf : v'.finished = v.finished)
    (hn : v'.frames = v.frames + 1) : heard v v' = [.vblank] := by
  have hd : v.finished.toList.drop v.finished.size = [] := List.drop_length
  have hne : v'.frames ≠ v.frames := by
    rw [hn]
    intro h
    exact absurd (UInt64.add_eq_left.mp h) (by decide)
  rw [heard, he, hf, if_neg hne, hd, switched_self]
  rfl

theorem outline_compareLine (v : Video) : v.compareLine.outline = v.outline := by
  rw [compareLine]
  split <;> rfl

theorem outline_updateStat (v : Video) (flags : UInt8) :
    (v.updateStat flags).1.outline = v.outline := rfl

/-! ## The flags -/

theorem hasBit_or (a b mask : UInt8) :
    hasBit (a ||| b) mask = (hasBit a mask || hasBit b mask) := by
  have hd : (a ||| b) &&& mask = a &&& mask ||| b &&& mask :=
    UInt8.toBitVec_inj.mp BitVec.and_or_distrib_right
  rw [Bool.eq_iff_iff, Bool.or_eq_true]
  simp only [hasBit, bne_iff_ne, ne_eq]
  rw [hd, UInt8.or_eq_zero_iff, not_and_or]

/-- The status interrupt leaves the request of the vertical blank as it is. -/
theorem hasBit_updateStat (v : Video) (flags : UInt8) :
    hasBit (v.updateStat flags).2 Interrupt.vblank.bit = hasBit flags Interrupt.vblank.bit := by
  change hasBit (Interrupt.stat.raise flags _) _ = _
  rw [Interrupt.raise]
  split
  · rw [hasBit_or]
    exact Bool.or_false _
  · rfl

theorem hasBit_raise_vblank (flags : UInt8) :
    hasBit (Interrupt.vblank.raise flags true) Interrupt.vblank.bit = true := by
  rw [Interrupt.raise, if_pos rfl, hasBit_or]
  exact Bool.or_true _

/-! ## One dot -/

namespace Run

variable {r r' : Run} {l : List Signal}

/-- Where no line is finished and no frame is counted, nothing but the switch is reported. -/
theorem Reports.quiet (hl : Quiet l) (hf : r'.video.finished = r.video.finished)
    (hn : r'.video.frames = r.video.frames) (he : r'.vblank = r.vblank)
    (hq : hasBit r'.flags Interrupt.vblank.bit = hasBit r.flags Interrupt.vblank.bit) :
    r.Reports l r' := by
  refine ⟨⟨[], ?_, hl.filterMap_line?⟩, ?_, ?_, ?_⟩
  · rw [hf, List.append_nil]
  · rw [hn, List.count_eq_zero_of_not_mem hl.not_mem_vblank]
    exact (UInt64.add_zero _).symm
  · rw [he, decide_eq_false hl.not_mem_vblank, Bool.or_false]
  · rw [hq, decide_eq_false hl.not_mem_vblank, Bool.or_false]

/-- A change of mode and line alone is a move that nothing is heard of. -/
theorem Emits.silent {m : Mode} {ly : Nat} (h : r.video.enabled = true)
    (hr : ∃ v, r' = { r with video := v } ∧ v.outline = { r.video.outline with mode := m, ly })
    (hm : Move (.lit r.video.mode r.video.ly) [] (.lit m ly)) :
    r.Emits (heard r.video r'.video) r' := by
  obtain ⟨v, rfl, hv⟩ := hr
  have hf : v.finished = r.video.finished := congrArg Outline.finished hv
  have hn : v.frames = r.video.frames := congrArg Outline.frames hv
  have hs : v.enabled = r.video.enabled := congrArg Outline.enabled hv
  have hl : heard r.video v = [] := by rw [heard_of_waiting hf hn, hs, switched_self]
  rw [hl]
  refine ⟨.quiet quiet_nil hf hn rfl rfl, ?_⟩
  rw [place_of_enabled h, place_of_outline hv h]
  exact hm.moves

/-- The end of a transfer delivers the line. -/
theorem emits_drawn (h : r.video.enabled = true) (hm : r.video.mode = .transfer) :
    r.Emits (heard r.video r.nextMode.video) r.nextMode := by
  have hv : ∃ v, r.nextMode = { r with video := v, hblanks := r.hblanks + 1 } ∧ v.outline =
      { r.video.outline with
        mode := .hblank
        finished := r.video.finished.push (scanline { r.video with clock := 0 }) } := by
    simp only [nextMode, hm, drawLine_eq]
    exact ⟨_, rfl, rfl⟩
  obtain ⟨v, hr, hv⟩ := hv
  have hf : v.finished = r.video.finished.push _ := congrArg Outline.finished hv
  have hn : v.frames = r.video.frames := congrArg Outline.frames hv
  rw [hr, heard_push (congrArg Outline.enabled hv) hf hn]
  refine ⟨⟨⟨[scanline { r.video with clock := 0 }], ?_, rfl⟩, ?_, ?_, ?_⟩, ?_⟩
  · rw [hf, Array.toList_push]
  · rw [hn]
    exact (UInt64.add_zero _).symm
  · exact (Bool.or_false _).symm
  · exact (Bool.or_false _).symm
  · rw [place_of_enabled h, place_of_outline hv h, hm]
    exact (Move.hblank r.video.ly).moves

/-- The end of the last line begins the vertical blank. -/
theorem emits_vblank (h : r.video.enabled = true) (hm : r.video.mode = .hblank)
    (hl : r.video.ly + 1 = screenHeight) :
    r.Emits (heard r.video r.nextMode.video) r.nextMode := by
  have hv : ∃ v, r.nextMode = { r with
        video := v, flags := Interrupt.vblank.raise r.flags true, vblank := true } ∧ v.outline =
      { r.video.outline with
        mode := .vblank, ly := r.video.ly + 1, frames := r.video.frames + 1 } := by
    simp only [nextMode, hm, if_pos hl]
    exact ⟨_, rfl, rfl⟩
  obtain ⟨v, hr, hv⟩ := hv
  have hf : v.finished = r.video.finished := congrArg Outline.finished hv
  have hn : v.frames = r.video.frames + 1 := congrArg Outline.frames hv
  rw [hr, heard_frame (congrArg Outline.enabled hv) hf hn]
  refine ⟨⟨⟨[], ?_, rfl⟩, hn, ?_, ?_⟩, ?_⟩
  · rw [hf, List.append_nil]
  · exact (Bool.or_true _).symm
  · rw [hasBit_raise_vblank]
    exact (Bool.or_true _).symm
  · rw [place_of_enabled h, place_of_outline hv h, hm]
    exact (Move.vblank hl).moves

/-- A change of mode makes one move, and reports just what is heard. -/
theorem emits_nextMode (h : r.video.enabled = true) :
    r.Emits (heard r.video r.nextMode.video) r.nextMode := by
  cases hm : r.video.mode with
  | scan =>
    have hr : ∃ v, r.nextMode = { r with video := v } ∧
        v.outline = { r.video.outline with mode := .transfer } := by
      simp only [nextMode, hm]
      exact ⟨_, rfl, rfl⟩
    refine .silent h hr ?_
    rw [hm]
    exact .transfer _
  | transfer => exact emits_drawn h hm
  | hblank =>
    by_cases hl : r.video.ly + 1 = screenHeight
    · exact emits_vblank h hm hl
    · have hr : ∃ v, r.nextMode = { r with video := v } ∧
          v.outline = { r.video.outline with mode := .scan, ly := r.video.ly + 1 } := by
        simp only [nextMode, hm, if_neg hl]
        exact ⟨_, rfl, rfl⟩
      refine .silent h hr ?_
      rw [hm]
      exact .scan hl
  | vblank =>
    by_cases hl : r.video.ly = lastLine
    · have hr : ∃ v, r.nextMode = { r with video := v } ∧
          v.outline = { r.video.outline with mode := .scan, ly := 0 } := by
        simp only [nextMode, hm, if_pos hl]
        exact ⟨_, rfl, rfl⟩
      refine .silent h hr ?_
      rw [hm, hl]
      exact .top
    · have hr : ∃ v, r.nextMode = { r with video := v } ∧
          v.outline = { r.video.outline with mode := .vblank, ly := r.video.ly + 1 } := by
        simp only [nextMode, hm, if_neg hl]
        exact ⟨_, rfl, rfl⟩
      refine .silent h hr ?_
      rw [hm]
      exact .blankLine hl

theorem outline_settle (r : Run) : r.settle.video.outline = r.video.outline :=
  (outline_updateStat _ r.flags).trans (outline_compareLine _)

/-- What follows a change of mode is not heard. -/
theorem Emits.settle (h : r.Emits l r') : r.Emits l r'.settle := by
  have hv := outline_settle r'
  have hf : r'.settle.video.finished = r'.video.finished := congrArg Outline.finished hv
  have hn : r'.settle.video.frames = r'.video.frames := congrArg Outline.frames hv
  have hs : r'.Emits [] r'.settle :=
    ⟨.quiet quiet_nil hf hn rfl (hasBit_updateStat _ _), place_congr hv ▸ .nil _⟩
  have ht := h.trans hs
  rwa [List.append_nil] at ht

theorem enabled_nextMode (r : Run) : r.nextMode.video.enabled = r.video.enabled := by
  rw [nextMode]
  simp only
  split
  · rfl
  · rfl
  · split <;> rfl
  · split <;> rfl

theorem enabled_tick (r : Run) : r.tick.video.enabled = r.video.enabled := by
  rw [tick]
  split
  · rfl
  · exact (congrArg Outline.enabled (outline_settle _)).trans (enabled_nextMode r)

theorem emits_tick (h : r.video.enabled = true) :
    r.Emits (heard r.video r.tick.video) r.tick := by
  rw [tick]
  split
  · have hl : heard r.video { r.video with clock := r.video.clock + 1 } = [] :=
      (heard_congr _ rfl).trans (heard_self _)
    rw [hl]
    exact ⟨.quiet quiet_nil rfl rfl rfl rfl, .nil _⟩
  · have hl : heard r.video r.nextMode.settle.video = heard r.video r.nextMode.video :=
      heard_congr _ (outline_settle _)
    rw [hl]
    exact (emits_nextMode h).settle

end Run

/-! ## Calls -/

theorem advance_of_dark (h : v.enabled = false) (dots : Nat) (flags : UInt8) :
    v.advance dots flags = { video := v, flags } :=
  if_neg (by simp [h])

theorem advance_succ (h : v.enabled = true) (dots : Nat) (flags : UInt8) :
    v.advance (dots + 1) flags = (v.advance dots flags).tick := by
  rw [advance, advance, if_pos h, if_pos h]
  rfl

theorem enabled_advance (dots : Nat) (v : Video) (flags : UInt8) :
    (v.advance dots flags).video.enabled = v.enabled := by
  rw [advance]
  split
  · exact repeat_unchanged (g := fun r : Run => r.video.enabled) Run.enabled_tick dots _
  · rfl

theorem emits_advance (dots : Nat) (v : Video) (flags : UInt8) :
    ((Call.advance dots flags).start v).Emits ((Call.advance dots flags).signals v)
      (v.advance dots flags) := by
  change Run.Emits { video := v, flags } ((List.range dots).flatMap fun k =>
    heard (v.advance k flags).video (v.advance (k + 1) flags).video) _
  induction dots with
  | zero =>
    rw [advance]
    split <;> exact .refl _
  | succ dots ih =>
    rw [List.range_succ, List.flatMap_append]
    refine ih.trans ?_
    simp only [List.flatMap_cons, List.flatMap_nil, List.append_nil]
    cases h : v.enabled with
    | false =>
      rw [advance_of_dark h, advance_of_dark h, heard_self]
      exact .refl _
    | true =>
      rw [advance_succ h]
      exact Run.emits_tick ((enabled_advance dots v flags).trans h)

/-- What a write makes of the unit, seen from outside: nothing, or the screen is switched. -/
inductive Switches (v : Video) : Outline → Prop
  | none : Switches v v.outline
  | off (h : v.enabled = true) :
      Switches v { v.outline with enabled := false, mode := .hblank, ly := 0 }
  | on (h : v.enabled = false) :
      Switches v { v.outline with enabled := true, mode := .scan, ly := 0 }

theorem outline_switchOn (v : Video) (flags : UInt8) :
    (v.switchOn flags).1.outline = { v.outline with mode := .scan, ly := 0 } :=
  (outline_updateStat _ flags).trans (outline_compareLine _)

theorem switches_writeControl (v : Video) (value flags : UInt8) :
    Switches v (v.writeControl value flags).1.outline := by
  simp only [writeControl]
  cases h : v.enabled with
  | false =>
    cases hn : enabled { v with lcdc := value } with
    | false =>
      change Switches v { v.outline with enabled := enabled { v with lcdc := value } }
      rw [hn, ← h]
      exact .none
    | true =>
      change Switches v (switchOn { v with lcdc := value } flags).1.outline
      rw [outline_switchOn]
      change Switches v
        { v.outline with enabled := enabled { v with lcdc := value }, mode := .scan, ly := 0 }
      rw [hn]
      exact .on h
  | true =>
    cases hn : enabled { v with lcdc := value } with
    | false =>
      change Switches v
        { v.outline with enabled := enabled { v with lcdc := value }, mode := .hblank, ly := 0 }
      rw [hn]
      exact .off h
    | true =>
      change Switches v { v.outline with enabled := enabled { v with lcdc := value } }
      rw [hn, ← h]
      exact .none

theorem outline_writeColor (v : Video) (address : UInt16) (value : UInt8) :
    (v.writeColor address value).outline = v.outline := by
  rw [writeColor]
  split <;> rfl

theorem switches_write (v : Video) (address : UInt16) (value flags : UInt8) :
    Switches v (v.write address value flags).1.outline := by
  rw [write]
  split
  · exact switches_writeControl v value flags
  case h_5 =>
    rw [outline_updateStat, outline_compareLine]
    exact .none
  case h_12 =>
    simp only
    split
    · rw [outline_writeColor]
      exact .none
    · exact .none
  all_goals exact .none

theorem hasBit_write (v : Video) (address : UInt16) (value flags : UInt8) :
    hasBit (v.write address value flags).2 Interrupt.vblank.bit =
      hasBit flags Interrupt.vblank.bit := by
  rw [write]
  split
  · rw [writeControl]
    split
    · rfl
    split
    · exact hasBit_updateStat _ flags
    · rfl
  case h_2 => exact hasBit_updateStat _ flags
  case h_5 => exact hasBit_updateStat _ flags
  all_goals rfl

theorem switches_writeVram (v : Video) (address : UInt16) (value : UInt8) :
    Switches v (v.writeVram address value).outline := by
  unfold writeVram
  split <;> exact .none

theorem Switches.waiting {o : Outline} (h : Switches v o) :
    o.finished = v.finished ∧ o.frames = v.frames := by
  cases h <;> exact ⟨rfl, rfl⟩

/-- Nothing but the switch is heard of a write. -/
theorem Switches.heard_eq (h : Switches v v'.outline) :
    heard v v' = switched v.enabled v'.enabled :=
  heard_of_waiting h.waiting.1 h.waiting.2

/-- Switching the screen is one move. -/
theorem Switches.emits {flags flags' : UInt8} (h : Switches v v'.outline)
    (hq : hasBit flags' Interrupt.vblank.bit = hasBit flags Interrupt.vblank.bit) :
    Run.Emits { video := v, flags } (heard v v') { video := v', flags := flags' } := by
  rw [h.heard_eq]
  refine ⟨.quiet (quiet_switched _ _) h.waiting.1 h.waiting.2 rfl hq, ?_⟩
  change Moves v.place _ v'.place
  generalize ho : v'.outline = o at h
  have hs : v'.enabled = o.enabled := congrArg Outline.enabled ho
  cases h with
  | none =>
    rw [place_congr ho, hs]
    exact switched_self v.enabled ▸ .nil _
  | off h =>
    rw [place_of_enabled h, place_of_dark hs, hs, h]
    exact (Move.off _ _).moves
  | on h =>
    rw [place_of_dark h, place_of_outline ho rfl, hs, h]
    exact Move.on.moves

theorem emits_call (v : Video) (c : Call) : (c.start v).Emits (c.signals v) (c.apply v) := by
  cases c with
  | advance dots flags => exact emits_advance dots v flags
  | write address value flags =>
    exact (switches_write v address value flags).emits (hasBit_write v address value flags)
  | writeVram address value => exact (switches_writeVram v address value).emits rfl
  | setMemory vram0 vram1 oam =>
    have hs : Switches v (outline { v with vram0, vram1, oam }) := .none
    exact hs.emits rfl

/-- While the screen is off, a call can do no more than switch it on. -/
theorem signals_of_dark (h : v.enabled = false) (c : Call) : ∀ s ∈ c.signals v, s = .on := by
  have hon (b : Bool) : ∀ s ∈ switched v.enabled b, s = .on := by
    rw [h]
    cases b <;> simp [switched]
  cases c with
  | advance dots flags => simp [Call.signals, advance_of_dark h, heard_self]
  | write address value flags =>
    rw [Call.signals, (switches_write v address value flags).heard_eq]
    exact hon _
  | writeVram address value =>
    rw [Call.signals, (switches_writeVram v address value).heard_eq]
    exact hon _
  | setMemory vram0 vram1 oam =>
    have hs : Switches v (outline { v with vram0, vram1, oam }) := .none
    rw [Call.signals, hs.heard_eq]
    exact hon _

/-- A sequence of calls is a sequence of moves. -/
theorem moves_trace (cs : List Call) (v : Video) : ∃ p, Moves v.place (trace cs v) p := by
  induction cs generalizing v with
  | nil => exact ⟨_, .nil _⟩
  | cons c cs ih =>
    obtain ⟨p, hp⟩ := ih (c.apply v).video
    have hv : (c.start v).video = v := by cases c <;> rfl
    have hc := (emits_call v c).moves
    rw [hv] at hc
    exact ⟨p, hc.trans hp⟩

end DotMatrix.Video
