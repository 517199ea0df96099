import DotMatrix.Proofs.Bus.Snapshot
import DotMatrix.Proofs.Machine.Range
import DotMatrix.Proofs.Snapshot.Container
import DotMatrix.Proofs.Sound.Snapshot
import DotMatrix.Proofs.Video.Snapshot

/-!
# Snapshots of machines in range

A snapshot of a machine in range can be loaded into every machine with the same hardware,
and gives all of it back but what waits for the host, the scratch fields, and the timers of
the sound unit, which are clamped. Whatever else is accepted has sections of the same sizes, and leads to
a machine in range.
-/
namespace DotMatrix

open Snapshot Snapshot.Layout

theorem Snapshot.Thumbnail.length_dither (shade : Nat → Nat → UInt8) :
    (dither shade).length = size := by
  simp only [dither, List.length_flatMap, List.length_map, List.length_range, List.map_const',
    List.sum_replicate_nat]
  exact Nat.mul_comm _ _

namespace Machine

variable {m m' m₀ m₁ m₂ : Machine}

def payloads (m : Machine) : List Bytes := sections.map (·.write m)

theorem snapshot_eq (m : Machine) : m.snapshot = encode m.snapshotFlags m.payloads := rfl

theorem snapshotFlags_of_hardware (h : m'.hardware = m.hardware) :
    m'.snapshotFlags = m.snapshotFlags := by
  have hm : m'.model = m.model := congrArg Bus.Hardware.model h
  have hk : m'.bus.slot.hasClock = m.bus.slot.hasClock :=
    congrArg (fun h : Bus.Hardware => h.slot.kind.2) h
  rw [snapshotFlags, snapshotFlags, hm, hk]

/-! ## Sizes -/

def sectionSizes (m : Machine) : List Nat := [
  m.core.bus.slot.controller.sectionSize, m.core.bus.slot.ram.size, 21, Video.sectionSize, 10,
  163, 2, Bus.memorySize, Thumbnail.size]

/-- The lengths of the sections fit their words. -/
theorem sectionSizes_lt (hram : m.core.bus.slot.ram.size < byteSpan 4) :
    ∀ n ∈ m.sectionSizes, n < byteSpan 4 := by
  have hc : m.core.bus.slot.controller.sectionSize < byteSpan 4 :=
    Controller.sectionSize_lt m.core.bus.slot.controller
  simp only [sectionSizes, List.forall_mem_cons]
  refine ⟨hc, hram, ?_⟩
  decide

theorem length_write_onBus {τ : Type} {get : Bus → τ} {set : Bus → τ → Bus} {layout : Layout τ} :
    ((onBus get set layout).write m).length = (layout.write (get m.core.bus)).length := rfl

@[simp] theorem length_write_processorLayout (m : Machine) :
    (processorLayout.write m).length = 21 := by
  simp [processorLayout]

theorem map_length_payloads (h : m.InRange) : m.payloads.map List.length = m.sectionSizes := by
  simp only [payloads, sections, List.map_cons, List.map_nil, length_write_onBus,
    Slot.length_write_controllerLayout, Slot.length_write_ramLayout, length_write_processorLayout,
    Video.length_write_layout h.bus.video, Timer.length_write_layout, Sound.length_write_layout,
    id_eq, Bus.length_write_interruptLayout, Bus.length_write_memoryLayout]
  rw [show (thumbnailLayout.write m).length = Thumbnail.size from Thumbnail.length_dither _]
  rfl

/-! ## Loading what was written -/

/-- Loading the payloads of `m`, in order, takes `m₀` to `m₁`, if they fit their words. -/
def Loads (ls : List (Layout Machine)) (m m₀ m₁ : Machine) : Prop :=
  (∀ l ∈ ls, Fits (l.write m)) → ∀ flags rest, loadSections ls
    ⟨flags, (ls.map (·.write m)).flatMap encodeSection ++ rest⟩ m₀ = .ok (m₁, ⟨flags, rest⟩)

variable {l : Layout Machine} {ls : List (Layout Machine)}

theorem loads_nil (h : m₀ = m₁) : Loads [] m m₀ m₁ := fun _ _ _ => h ▸ rfl

variable {r r₁ r₂ : Reader} {payload : Bytes}

theorem loadSections_cons (hn : r.next = .ok (payload, r₁))
    (hl : l.load payload m₀ = (m₁, .ok ())) :
    loadSections (l :: ls) r m₀ = loadSections ls r₁ m₁ := by
  rw [loadSections, hn]
  simp only [bind, Except.bind, hl]

/-- Sections are accepted one after the other. -/
theorem of_loadSections_cons (h : loadSections (l :: ls) r m₀ = .ok (m₂, r₂)) :
    ∃ payload r₁ m₁, r.next = .ok (payload, r₁) ∧ l.load payload m₀ = (m₁, .ok ()) ∧
      loadSections ls r₁ m₁ = .ok (m₂, r₂) := by
  cases hn : r.next with
  | error fault =>
    rw [loadSections, hn] at h
    cases h
  | ok opened =>
    rcases hl : l.load opened.1 m₀ with ⟨m₁, ⟨⟩ | ⟨⟩⟩
    · rw [loadSections, hn] at h
      simp only [bind, Except.bind, hl] at h
      cases h
    · rw [loadSections_cons hn hl] at h
      exact ⟨opened.1, opened.2, m₁, rfl, hl, h⟩

theorem loads_cons (hl : l.load (l.write m) m₀ = (m₁, .ok ())) (hs : Loads ls m m₁ m₂) :
    Loads (l :: ls) m m₀ m₂ := by
  intro hf flags rest
  have hn : Reader.next ⟨flags, ((l :: ls).map (·.write m)).flatMap encodeSection ++ rest⟩ =
      .ok (l.write m, ⟨flags, (ls.map (·.write m)).flatMap encodeSection ++ rest⟩) := by
    rw [List.map_cons, List.flatMap_cons, List.append_assoc]
    exact Reader.next_encodeSection (hf l List.mem_cons_self)
  rw [loadSections_cons hn hl]
  exact hs (fun l hm => hf l (List.mem_cons_of_mem _ hm)) flags rest

theorem load_of_loads (hf : m₀.snapshotFlags = m.snapshotFlags)
    (hfit : ∀ l ∈ sections, Fits (l.write m)) (hl : Loads sections m m₀ m₁) :
    m₀.load m.snapshot = .ok m₁ := by
  have ho : Reader.ofBlob m.snapshot = .ok ⟨m.snapshotFlags, m.payloads.flatMap encodeSection⟩ :=
    Reader.ofBlob_head m.snapshotFlags _
  have hs := hl hfit m.snapshotFlags []
  rw [List.append_nil] at hs
  change (Reader.ofBlob m.snapshot >>= _) = _
  rw [ho]
  change (if m.snapshotFlags ≠ m₀.snapshotFlags then _ else _) = _
  rw [if_neg (by rw [hf]; exact fun hne => hne rfl)]
  rw [payloads, hs]
  rfl

theorem load_onBus {τ : Type} {get : Bus → τ} {set : Bus → τ → Bus} {layout : Layout τ} {t : τ}
    (h : layout.load (layout.write (get m.core.bus)) (get m₀.core.bus) = (t, .ok ())) :
    (onBus get set layout).load ((onBus get set layout).write m) m₀ =
      (m₀.mapBus (set · t), .ok ()) :=
  load_part h

theorem restores_processorLayout (h : m.InRange) : processorLayout.Restores m m₀
    { m₀ with
      core := { m₀.core with cpu := { m.core.cpu with cycles := m₀.core.cpu.cycles } }
      overshoot := m.overshoot } := by
  have ho : m.overshoot < byteSpan 4 := lt_byteSpan_of_le h.overshoot
  apply Restores.congr
  · exact restores_cons (restores_part (Processor.restores_layout h.cpu _)) <|
      restores_cons (restores_number ho) restores_nil
  · simp only [Nat.min_eq_left h.overshoot]

theorem restores_thumbnailLayout : thumbnailLayout.Restores m m₀ m₀ :=
  @restores_field Machine m m₀ Thumbnail.size thumbnail (fun m _ => m) (Thumbnail.length_dither _)

theorem fits_write (h : m.InRange) (hram : m.core.bus.slot.ram.size < byteSpan 4) :
    ∀ l ∈ sections, Fits (l.write m) := by
  intro l hl
  apply sectionSizes_lt hram
  rw [← map_length_payloads h]
  exact List.mem_map_of_mem (List.mem_map_of_mem hl)

/-- What `m` becomes on its way through a snapshot into the console of `m₀`. -/
def restoredOn (m m₀ : Machine) : Machine :=
  { m with
    core.cpu := { m.core.cpu with cycles := m₀.core.cpu.cycles }
    core.bus := { m.core.bus with
      slot := { m.core.bus.slot with touched := m₀.core.bus.slot.touched }
      video := { m.core.bus.video with
        buffers := m₀.core.bus.video.buffers
        finished := m₀.core.bus.video.finished }
      sound := m.core.bus.sound.restored } }

/-- A snapshot of a machine in range is accepted by every console of the same hardware. -/
theorem load_snapshot (h : m.InRange) (hd : m.core.bus.sound.resampler.dots ≤ Sound.maxFrameDots)
    (hh : m₀.hardware = m.hardware) (hram : m.core.bus.slot.ram.size < byteSpan 4) :
    m₀.load m.snapshot = .ok (m.restoredOn m₀) := by
  apply load_of_loads (snapshotFlags_of_hardware hh) (fits_write h hram)
  have hslot : m.core.bus.slot.hardware = m₀.core.bus.slot.hardware :=
    (congrArg Bus.Hardware.slot hh).symm
  have hsize : m.core.bus.slot.ram.size = m₀.core.bus.slot.ram.size :=
    congrArg Slot.Hardware.ramSize hslot
  have hconfig : m₀.core.bus.sound.config = m.core.bus.sound.config :=
    congrArg Bus.Hardware.sound hh
  have hrom : m₀.core.bus.bootRom? = m.core.bus.bootRom? := congrArg Bus.Hardware.bootRom? hh
  apply loads_cons
  · exact load_onBus (Slot.restores_controllerLayout h.bus.slot hslot).load
  apply loads_cons
  · exact load_onBus (Slot.load_ramLayout hsize)
  apply loads_cons
  · exact (restores_processorLayout h).load
  apply loads_cons
  · exact load_onBus (Video.restores_layout h.bus.video _).load
  apply loads_cons
  · exact load_onBus (Timer.restores_layout h.bus.timer _).load
  apply loads_cons
  · exact load_onBus (Sound.restores_restored h.bus.sound hd hconfig).load
  apply loads_cons
  · exact load_onBus (Bus.restores_interruptLayout h.bus).load
  apply loads_cons
  · apply load_onBus
    apply Restores.load
    exact Bus.restores_memoryLayout h.bus h.stall hrom
  apply loads_cons
  · exact restores_thumbnailLayout.load
  apply loads_nil
  have hmodel : m₀.core.bus.model = m.core.bus.model := congrArg Bus.Hardware.model hh
  have hcgb : m₀.core.bus.cgb = m.core.bus.cgb := congrArg Bus.Hardware.cgb hh
  have hvideo : m₀.core.bus.video.cgb = m.core.bus.video.cgb :=
    congrArg (fun h : Bus.Hardware => h.video.1) hh
  have hcolor : m₀.core.bus.video.colorOutput = m.core.bus.video.colorOutput :=
    congrArg (fun h : Bus.Hardware => h.video.2) hh
  have himage : m₀.core.bus.slot.rom = m.core.bus.slot.rom :=
    congrArg Slot.Hardware.rom hslot.symm
  have hbanks : m₀.core.bus.slot.romBanks = m.core.bus.slot.romBanks :=
    congrArg Slot.Hardware.romBanks hslot.symm
  have hmotor : m₀.core.bus.slot.motor = m.core.bus.slot.motor :=
    congrArg Slot.Hardware.motor hslot.symm
  change ({ m with
    core.cpu := { m.core.cpu with cycles := m₀.core.cpu.cycles }
    core.bus := { m.core.bus with
      model := m₀.core.bus.model
      cgb := m₀.core.bus.cgb
      slot := { m₀.core.bus.slot with
        controller := m.core.bus.slot.controller
        ram := m.core.bus.slot.ram }
      bootRom? := m₀.core.bus.bootRom?
      video := { m.core.bus.video with
        cgb := m₀.core.bus.video.cgb
        colorOutput := m₀.core.bus.video.colorOutput
        buffers := m₀.core.bus.video.buffers
        finished := m₀.core.bus.video.finished }
      timer := { m.core.bus.timer with oldModulo := none }
      sound := m.core.bus.sound.restored } } : Machine) = _
  simp only [restoredOn, hmodel, hcgb, hvideo, hcolor, himage, hbanks, hmotor, hrom,
    ← h.settled]

/-! ## Loading whatever is accepted -/

/-- What is accepted as these sections has these sizes, and leads to a machine that has the
property together with the payloads. -/
def Accepts (ls : List (Layout Machine)) (sizes : List Nat) (m : Machine)
    (Q : List Bytes → Machine → Prop) : Prop :=
  ∀ r m' r', loadSections ls r m = .ok (m', r') → ∃ payloads : List Bytes,
    r.rest = payloads.flatMap encodeSection ++ r'.rest ∧ payloads.map List.length = sizes ∧
      Q payloads m'

variable {Q : List Bytes → Machine → Prop} {n : Nat} {ns : List Nat}

theorem accepts_nil (h : Q [] m) : Accepts [] [] m Q := by
  intro r m' r' hl
  cases hl
  exact ⟨[], rfl, rfl, h⟩

theorem accepts_cons {P : Machine → Prop} (h : l.Reads n m P)
    (hs : ∀ payload m₁, l.load payload m = (m₁, .ok ()) → P m₁ →
      Accepts ls ns m₁ fun payloads => Q (payload :: payloads)) :
    Accepts (l :: ls) (n :: ns) m Q := by
  intro r m' r' hl
  rcases of_loadSections_cons hl with ⟨payload, r₁, m₁, hn, hload, hl⟩
  rcases h.load hload with ⟨hlength, hP⟩
  rcases hs payload m₁ hload hP _ _ _ hl with ⟨payloads, hrest, hsizes, hQ⟩
  rcases Reader.eq_of_next hn with ⟨hfirst, _, _⟩
  refine ⟨payload :: payloads, ?_, ?_, hQ⟩
  · rw [hfirst, hrest, List.flatMap_cons, List.append_assoc]
  · rw [List.map_cons, hlength, hsizes]

/-- Each part of a machine that was in range still is. -/
structure Maintains (m m' : Machine) : Prop where
  bus : Bus.Maintains m.core.bus m'.core.bus
  cpu : m.core.cpu.InRange → m'.core.cpu.InRange
  stall : m.core.bus.stall ≤ Bus.maxStall → m'.core.bus.stall ≤ Bus.maxStall
  settled : m.core.bus.timer.oldModulo = none → m'.core.bus.timer.oldModulo = none
  overshoot : m.overshoot ≤ maxOvershoot → m'.overshoot ≤ maxOvershoot

theorem Maintains.refl (m : Machine) : Maintains m m := ⟨.refl m.core.bus, id, id, id, id⟩

theorem Maintains.trans (h : Maintains m m₁) (h' : Maintains m₁ m₂) : Maintains m m₂ where
  bus := h.bus.trans h'.bus
  cpu := h'.cpu ∘ h.cpu
  stall := h'.stall ∘ h.stall
  settled := h'.settled ∘ h.settled
  overshoot := h'.overshoot ∘ h.overshoot

/-- A machine whose snapshot gives all of it back. -/
structure Normal (m : Machine) : Prop where
  timers : m.core.bus.sound.TimersInRange
  dots : m.core.bus.sound.resampler.dots ≤ Sound.maxFrameDots

/-! ### The sections one by one, whatever they are loaded into -/

theorem reads_controllerSection (m : Machine) :
    (onBus (·.slot) (fun b s => { b with slot := s }) Slot.controllerLayout).Reads
      m.core.bus.slot.controller.sectionSize m
      fun m' => Maintains m m' ∧ m'.core.bus.slot.InRange := by
  apply reads_part
  apply (Slot.reads_controllerLayout m.core.bus.slot).imp
  intro s hs
  have hb := Bus.evolves_slot (b := m.core.bus) hs.2 fun _ => hs.1
  exact ⟨{ Maintains.refl m with bus := hb.toMaintains }, hs.1⟩

theorem reads_ramSection (m : Machine) :
    (onBus (·.slot) (fun b s => { b with slot := s }) Slot.ramLayout).Reads
      m.core.bus.slot.ram.size m (Maintains m) := by
  apply reads_part
  apply (Slot.reads_ramLayout m.core.bus.slot).imp
  intro s ⟨hc, hh⟩
  have hr (h : m.core.bus.slot.InRange) : s.InRange := by
    rw [Slot.InRange, hc]
    exact h
  have hb := Bus.evolves_slot (b := m.core.bus) hh hr
  exact { Maintains.refl m with bus := hb.toMaintains }

theorem reads_processorSection (m : Machine) : processorLayout.Reads 21 m
    fun m' => Maintains m m' ∧ m'.core.cpu.InRange ∧ m'.overshoot ≤ maxOvershoot := by
  apply reads_cons (n := 17)
  apply reads_part
  apply (Processor.reads_layout _).imp
  intro cpu hcpu
  apply reads_cons_number; intro overshoot _
  apply reads_nil
  have ho : min overshoot maxOvershoot ≤ maxOvershoot := Nat.min_le_right _ _
  exact ⟨{ Maintains.refl m with cpu := fun _ => hcpu, overshoot := fun _ => ho }, hcpu, ho⟩

theorem reads_videoSection (h : m.hardware.Consistent) :
    (onBus (·.video) (fun b v => { b with video := v }) Video.layout).Reads
      Video.sectionSize m fun m' => Maintains m m' ∧ m'.core.bus.video.InRange := by
  apply reads_part
  apply (Video.reads_layout h.color).imp
  intro v hv
  have hb := Bus.evolves_video (b := m.core.bus) hv.2.1 fun _ => hv.1
  exact ⟨{ Maintains.refl m with bus := hb.toMaintains }, hv.1⟩

theorem reads_timerSection (m : Machine) :
    (onBus (·.timer) (fun b t => { b with timer := t }) Timer.layout).Reads 10 m fun m' =>
      Maintains m m' ∧ m'.core.bus.timer.InRange ∧ m'.core.bus.timer.oldModulo = none := by
  apply reads_part
  apply (Timer.reads_layout m.core.bus.timer).imp
  intro t ht
  have hb := Bus.evolves_timer (b := m.core.bus) fun _ => ht.1
  exact ⟨{ Maintains.refl m with bus := hb.toMaintains, settled := fun _ => ht.2 }, ht⟩

theorem reads_soundSection (h : m.hardware.Consistent) :
    (onBus (·.sound) (fun b s => { b with sound := s }) Sound.layout).Reads 163 m
      fun m' => Maintains m m' ∧ m'.core.bus.sound.InRange ∧ m'.Normal := by
  apply reads_part
  apply (Sound.reads_layout ⟨h.minRate, h.maxRate⟩).imp
  intro s ⟨hr, ht, hd, hc, _⟩
  have hw : { m.core.bus with sound := s }.hardware = m.core.bus.hardware := by
    simp only [Bus.hardware, hc]
  have hb : Bus.Maintains m.core.bus { m.core.bus with sound := s } :=
    { Bus.Maintains.refl m.core.bus with hardware := hw, sound := fun _ => hr }
  exact ⟨{ Maintains.refl m with bus := hb }, hr, ht, hd⟩

theorem reads_interruptSection (m : Machine) :
    (onBus id (fun _ b => b) Bus.interruptLayout).Reads 2 m fun m' =>
      Maintains m m' ∧ Interrupt.OnLines m'.core.bus.requests ∧
        Interrupt.OnLines m'.core.bus.enables ∧ m'.core.bus.sound = m.core.bus.sound := by
  apply reads_part
  apply (Bus.reads_interruptLayout m.core.bus).imp
  intro b ⟨hr, he, hb⟩
  rw [hb]
  have hm : Bus.Maintains m.core.bus
      { m.core.bus with requests := b.requests, enables := b.enables } :=
    { Bus.Maintains.refl m.core.bus with requests := fun _ => hr, enables := fun _ => he }
  exact ⟨{ Maintains.refl m with bus := hm }, hr, he, rfl⟩

theorem reads_memorySection (m : Machine) :
    (onBus id (fun _ b => b) Bus.memoryLayout).Reads Bus.memorySize m
      fun m' => Maintains m m' ∧ Bus.MemoryRead m.core.bus m'.core.bus := by
  apply reads_part
  apply (Bus.reads_memoryLayout m.core.bus).imp
  intro b hb
  refine ⟨⟨hb.maintains, id, fun _ => hb.stall, ?_, id⟩, hb⟩
  exact (congrArg Timer.oldModulo hb.timer).trans

theorem reads_thumbnailSection (m : Machine) : thumbnailLayout.Reads Thumbnail.size m (· = m) :=
  reads_field fun _ _ => rfl

/-! ### The whole snapshot -/

/-- What a snapshot leaves of a machine, and what it makes of it. -/
structure Kept (m m' : Machine) : Prop where
  hardware : m'.hardware = m.hardware
  inRange : m'.InRange

/-- What is known of a machine that these payloads were loaded into. -/
structure Loaded (m : Machine) (payloads : List Bytes) (m' : Machine) : Prop where
  kept : Kept m m'
  normal : m'.Normal
  sound : ∃ s₀, Sound.layout.load (payloads.getD 5 []) s₀ = (m'.core.bus.sound, .ok ())

/-- Every snapshot that is accepted has sections of the sizes that the machine's own have,
and leads to a machine in range with the same hardware, whose own snapshot gives all of it
back. Nothing is asked of the machine it is loaded into but its hardware. -/
theorem accepts_sections (h : m.hardware.Consistent) :
    Accepts sections m.sectionSizes m (Loaded m) := by
  apply accepts_cons (reads_controllerSection m)
  intro _ m₁ _ ⟨h₁, hslot⟩
  have hram : m₁.core.bus.slot.ram.size = m.core.bus.slot.ram.size :=
    congrArg (fun h : Bus.Hardware => h.slot.ramSize) h₁.bus.hardware
  rw [← hram]
  apply accepts_cons (reads_ramSection m₁)
  intro _ m₂ _ h₂
  apply accepts_cons (reads_processorSection m₂)
  intro _ m₃ _ ⟨h₃, hcpu, hovershoot⟩
  have hm₃ : m₃.hardware = m.hardware := (h₁.trans (h₂.trans h₃)).bus.hardware
  apply accepts_cons (reads_videoSection (hm₃ ▸ h))
  intro _ m₄ _ ⟨h₄, hvideo⟩
  apply accepts_cons (reads_timerSection m₄)
  intro _ m₅ _ ⟨h₅, htimer, hsettled⟩
  have hm₅ : m₅.hardware = m.hardware := (h₄.trans h₅).bus.hardware.trans hm₃
  apply accepts_cons (reads_soundSection (hm₅ ▸ h))
  intro payload m₆ hl ⟨h₆, hsound, hn⟩
  apply accepts_cons (reads_interruptSection m₆)
  intro _ m₇ _ ⟨h₇, hrequests, henables, hs₇⟩
  apply accepts_cons (reads_memorySection m₇)
  intro _ m₈ _ ⟨h₈, hmemory⟩
  apply accepts_cons (reads_thumbnailSection m₈)
  intro _ m₉ _ h₉
  rw [h₉]
  apply accepts_nil
  -- What one section brings into range stays there while those behind it are loaded.
  have hto₆ : Maintains m₆ m₈ := h₇.trans h₈
  have hto₅ : Maintains m₅ m₈ := h₆.trans hto₆
  have hto₄ : Maintains m₄ m₈ := h₅.trans hto₅
  have hto₃ : Maintains m₃ m₈ := h₄.trans hto₄
  have hto₁ : Maintains m₁ m₈ := (h₂.trans h₃).trans hto₃
  have hbus : m₈.core.bus.InRange := {
    slot := hto₁.bus.slot hslot
    video := hto₄.bus.video hvideo
    sound := hto₆.bus.sound hsound
    timer := hto₅.bus.timer htimer
    joypad := hmemory.joypad
    requests := h₈.bus.requests hrequests
    enables := h₈.bus.enables henables
    bootRom := hmemory.bootRom
    workBank := hmemory.workBank
    blockTransfer := hmemory.blockTransfer
    objectTransfer := hmemory.objectTransfer }
  have hs : m₈.core.bus.sound = m₆.core.bus.sound := hmemory.sound.trans hs₇
  rcases eq_of_load_part hl with ⟨s, hload, rfl⟩
  refine ⟨⟨(h₁.trans hto₁).bus.hardware, ?_⟩, ?_, ?_⟩
  · exact ⟨hto₃.cpu hcpu, hbus, hmemory.stall, hto₅.settled hsettled, hto₃.overshoot hovershoot⟩
  · constructor
    · rw [hs]
      exact hn.timers
    · rw [hs]
      exact hn.dots
  · rw [hs]
    exact ⟨_, hload⟩

/-- A snapshot that is accepted has the machine's flags, and nothing behind its sections. -/
theorem sections_of_load {blob : Bytes} (hl : m.load blob = .ok m') : ∃ r r',
    Reader.ofBlob blob = .ok r ∧ r.flags = m.snapshotFlags ∧
      loadSections sections r m = .ok (m', r') ∧ r'.rest = [] := by
  rw [load] at hl
  cases ho : Reader.ofBlob blob with
  | error fault =>
    rw [ho] at hl
    cases hl
  | ok r =>
    rw [ho] at hl
    change (if r.flags ≠ m.snapshotFlags then Except.error SnapshotFault.differentMachine else
      loadSections sections r m >>= fun x => x.2.finish >>= fun _ => .ok x.1) = _ at hl
    split at hl
    · cases hl
    rename_i hf
    cases hs : loadSections sections r m with
    | error fault =>
      rw [hs] at hl
      cases hl
    | ok loaded =>
      rcases loaded with ⟨m₁, r₁⟩
      rw [hs] at hl
      change (r₁.finish >>= _) = _ at hl
      cases hrest : r₁.rest with
      | cons b rest =>
        rw [show r₁.finish = .error .trailingData by rw [Reader.finish, hrest]] at hl
        cases hl
      | nil =>
        rw [show r₁.finish = .ok () by rw [Reader.finish, hrest]] at hl
        cases hl
        exact ⟨r, r₁, rfl, Decidable.of_not_not hf, hs, hrest⟩

theorem loaded_of_load {blob : Bytes} (h : m.hardware.Consistent) (hl : m.load blob = .ok m') :
    ∃ payloads, blob = encode m.snapshotFlags payloads ∧
      payloads.map List.length = m.sectionSizes ∧ Loaded m payloads m' := by
  obtain ⟨r, r', ho, hf, hs, hrest⟩ := sections_of_load hl
  obtain ⟨payloads, hp, hsizes, hq⟩ := accepts_sections h r m' r' hs
  rw [hrest, List.append_nil] at hp
  refine ⟨payloads, ?_, hsizes, hq⟩
  rw [Reader.eq_of_ofBlob ho, hf, hp, encode_eq]

theorem of_load {blob : Bytes} (h : m.InRange) (hl : m.load blob = .ok m') :
    ∃ payloads, blob = encode m.snapshotFlags payloads ∧
      payloads.map List.length = m.sectionSizes ∧ Loaded m payloads m' :=
  loaded_of_load h.bus.consistent hl

/-! ## What comes back -/

/-- Of the sections, only that of the sound unit may come back changed. -/
theorem payloads_restoredOn (m m₀ : Machine) : (m.restoredOn m₀).payloads =
    m.payloads.set 5 (Sound.layout.write m.core.bus.sound.restored) := rfl

theorem snapshot_restoredOn (h : m.InRange) (hn : m.Normal) (m₀ : Machine) :
    (m.restoredOn m₀).snapshot = m.snapshot := by
  have hsound : Sound.layout.write m.core.bus.sound.restored = Sound.layout.write m.core.bus.sound :=
    (Sound.write_restored_iff h.bus.sound).mpr hn.timers
  rw [snapshot_eq, snapshot_eq, payloads_restoredOn, hsound]
  rfl

/-! ## What a snapshot tells -/

/-- A machine from which the host has taken all that waits for it, and whose scratch fields
are those of a new one. -/
def emptied (m : Machine) : Machine :=
  { m with
    core.cpu := { m.core.cpu with cycles := 0 }
    core.bus := { m.core.bus with
      slot := m.core.bus.slot.takeTouched.1
      video := m.core.bus.video.emptied
      sound := m.core.bus.sound.takeFrames.1 } }

theorem slot_eq_of_payloads {s s' : Slot} (h : s.InRange) (h' : s'.InRange)
    (hh : s'.hardware = s.hardware)
    (hc : Slot.controllerLayout.write s = Slot.controllerLayout.write s')
    (hr : Slot.ramLayout.write s = Slot.ramLayout.write s') :
    s.takeTouched.1 = s'.takeTouched.1 := by
  have he := (Slot.restores_controllerLayout h rfl).eq_of_write
    (Slot.restores_controllerLayout h' hh) hc
  have hcontroller : s.controller = s'.controller := by injection he
  have hram : s.ram = s'.ram := by
    apply ByteArray.ext
    apply Array.toList_inj.mp
    exact hr
  have himage : s'.rom = s.rom := congrArg Slot.Hardware.rom hh
  have hbanks : s'.romBanks = s.romBanks := congrArg Slot.Hardware.romBanks hh
  have hmotor : s'.motor = s.motor := congrArg Slot.Hardware.motor hh
  simp only [Slot.takeTouched, hcontroller, hram, himage, hbanks, hmotor]

theorem video_eq_of_payload {v v' : Video} (h : v.InRange) (h' : v'.InRange)
    (hf : v'.features = v.features) (hw : Video.layout.write v = Video.layout.write v') :
    v.emptied = v'.emptied := by
  rcases Prod.mk.inj hf with ⟨hcgb, hcolor⟩
  have he := (Video.restores_layout h v).eq_of_write (Video.restores_layout h' v) hw
  apply (congrArg Video.emptied he).trans
  rw [← hcgb, ← hcolor]
  rfl

theorem timer_eq_of_payload {t t' : Timer} (h : t.InRange) (h' : t'.InRange)
    (hn : t.oldModulo = none) (hn' : t'.oldModulo = none)
    (hw : Timer.layout.write t = Timer.layout.write t') : t = t' := by
  have he := (Timer.restores_layout h t).eq_of_write (Timer.restores_layout h' t) hw
  cases t
  cases t'
  cases hn
  cases hn'
  exact he

theorem write_eq_of_snapshot_eq (hf : ∀ l ∈ sections, Fits (l.write m))
    (hf' : ∀ l ∈ sections, Fits (l.write m')) (hs : m.snapshot = m'.snapshot) :
    ∀ l ∈ sections, l.write m = l.write m' := by
  have hp : ∀ p ∈ m.payloads, Fits p := List.forall_mem_map.mpr hf
  have hp' : ∀ p ∈ m'.payloads, Fits p := List.forall_mem_map.mpr hf'
  have hl : m.payloads.length = m'.payloads.length := by
    rw [payloads, payloads, List.length_map, List.length_map]
  rw [snapshot_eq, snapshot_eq] at hs
  have he : m.payloads = m'.payloads := (encode_inj hl hp hp' hs).2
  exact List.map_inj_left.mp he

/-- Machines of one hardware with one snapshot are the same but for what waits for the
host and the scratch fields. -/
theorem emptied_eq_of_snapshot_eq (h : m.InRange) (h' : m'.InRange)
    (hh : m'.hardware = m.hardware) (hram : m.core.bus.slot.ram.size < byteSpan 4)
    (hs : m.snapshot = m'.snapshot) : m.emptied = m'.emptied := by
  have hslot : m'.core.bus.slot.hardware = m.core.bus.slot.hardware :=
    congrArg Bus.Hardware.slot hh
  have hram' : m'.core.bus.slot.ram.size < byteSpan 4 := by
    rw [show m'.core.bus.slot.ram.size = m.core.bus.slot.ram.size from
      congrArg Slot.Hardware.ramSize hslot]
    exact hram
  have hw := write_eq_of_snapshot_eq (fits_write h hram) (fits_write h' hram') hs
  have hcontroller : Slot.controllerLayout.write m.core.bus.slot =
    Slot.controllerLayout.write m'.core.bus.slot := hw _ (.head _)
  have hexternal : Slot.ramLayout.write m.core.bus.slot = Slot.ramLayout.write m'.core.bus.slot :=
    hw _ (.tail _ (.head _))
  have hprocessor : processorLayout.write m = processorLayout.write m' :=
    hw _ (.tail _ (.tail _ (.head _)))
  have hvideo : Video.layout.write m.core.bus.video = Video.layout.write m'.core.bus.video :=
    hw _ (.tail _ (.tail _ (.tail _ (.head _))))
  have htimer : Timer.layout.write m.core.bus.timer = Timer.layout.write m'.core.bus.timer :=
    hw _ (.tail _ (.tail _ (.tail _ (.tail _ (.head _)))))
  have hsound : Sound.layout.write m.core.bus.sound = Sound.layout.write m'.core.bus.sound :=
    hw _ (.tail _ (.tail _ (.tail _ (.tail _ (.tail _ (.head _))))))
  have hinterrupt : Bus.interruptLayout.write m.core.bus = Bus.interruptLayout.write m'.core.bus :=
    hw _ (.tail _ (.tail _ (.tail _ (.tail _ (.tail _ (.tail _ (.head _)))))))
  have hmemory : Bus.memoryLayout.write m.core.bus = Bus.memoryLayout.write m'.core.bus :=
    hw _ (.tail _ (.tail _ (.tail _ (.tail _ (.tail _ (.tail _ (.tail _ (.head _))))))))
  have hslot := slot_eq_of_payloads h.bus.slot h'.bus.slot hslot hcontroller hexternal
  have hvideo := video_eq_of_payload h.bus.video h'.bus.video (congrArg Bus.Hardware.video hh) hvideo
  have htimer := timer_eq_of_payload h.bus.timer h'.bus.timer h.settled h'.settled htimer
  have hsound : m.core.bus.sound.takeFrames.1 = m'.core.bus.sound.takeFrames.1 :=
    Sound.write_inj h.bus.sound h'.bus.sound (congrArg Bus.Hardware.sound hh).symm hsound
  have hmodel : m.core.bus.model = m'.core.bus.model := (congrArg Bus.Hardware.model hh).symm
  have hcgb : m.core.bus.cgb = m'.core.bus.cgb := (congrArg Bus.Hardware.cgb hh).symm
  have hrom : m.core.bus.bootRom? = m'.core.bus.bootRom? :=
    (congrArg Bus.Hardware.bootRom? hh).symm
  have hp := (@restores_processorLayout m m h).eq_of_write (restores_processorLayout h') hprocessor
  have hi := (@Bus.restores_interruptLayout m.core.bus m.core.bus h.bus).eq_of_write
    (Bus.restores_interruptLayout h'.bus) hinterrupt
  have hm := (@Bus.restores_memoryLayout m.core.bus m.core.bus h.bus h.stall rfl).eq_of_write
    (Bus.restores_memoryLayout h'.bus h'.stall hrom) hmemory
  injection hp with hcore hover
  injection hcore with hcpu _
  injection hcpu
  injection hi
  injection hm
  simp only [emptied, *]

end Machine

end DotMatrix
