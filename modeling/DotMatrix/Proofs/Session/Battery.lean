import DotMatrix.Proofs.Machine.Marks
import DotMatrix.Proofs.Machine.RoundTrip
import DotMatrix.Proofs.Machine.SnapshotRam
import DotMatrix.Session.Basic

/-!
# The battery flag

A host keeps the battery image of a session while the flag says that it has changed. The
ledger of a session is what the host knows of the RAM without looking at it: the image that
was exchanged last, and the RAM of a snapshot that was accepted since. As long as the flag
is clean, the RAM is what the ledger says.

The flag follows what the game writes, whatever else happens. It does not follow snapshots:
they bring a RAM of their own.
-/
namespace DotMatrix

open Snapshot

theorem Machine.slot_of_new {m : Machine} {c : Cartridge} {model : Model}
    {bootRom? : Option BootRom} {sampleRate now : Nat}
    (h : Machine.new c model bootRom? sampleRate now = .ok m) :
    m.core.bus.slot = .insert c now := by
  unfold Machine.new at h
  dsimp only at h
  split at h
  · cases h
    rfl
  · split at h
    · cases h
      rfl
    · cases h

namespace Session

/-! ## What the host does -/

/-- What the host does with a session. What is refused changes nothing. -/
inductive Call where
  | setButtons (buttons : UInt8)
  | tick (seconds : Float)
  | takeLines
  | load (blob : Bytes)
  | loadBattery (image : Bytes) (now : Nat)
  | batteryImage (now : Nat)
  | reset (now : Nat)
  | setClock (days hours minutes seconds now : Nat)

def perform (s : Session) : Call → Session
  | .setButtons buttons => s.setButtons buttons
  | .tick seconds => (s.tick seconds).1
  | .takeLines => s.takeLines.1
  | .load blob => (s.load blob).toOption.getD s
  | .loadBattery image now => (s.loadBattery image now).toOption.getD s
  | .batteryImage now => (s.batteryImage now).1
  | .reset now => (s.reset now).toOption.getD s
  | .setClock days hours minutes seconds now => (s.setClock days hours minutes seconds now).1

/-- What the host knows of the RAM of the cartridge. -/
structure Ledger where
  /-- The RAM of the battery image that was exchanged last. -/
  exchanged : Bytes
  /-- The RAM of the last snapshot that was accepted since. -/
  restored? : Option Bytes := none

namespace Ledger

/-- The RAM as long as the game does not write. -/
def ram (l : Ledger) : Bytes := l.restored?.getD l.exchanged

/-- The ledger of a session that starts. Without a battery image the RAM is blank. -/
def start (c : Cartridge) (battery? snapshot? : Option Bytes) : Ledger where
  exchanged :=
    match battery? with
    | some image => image.take c.ramSize
    | none => List.replicate c.ramSize 0
  restored? := snapshot?.bind fun blob => (ram? blob).toOption

def record (l : Ledger) (s : Session) : Call → Ledger
  | .load blob =>
    match s.load blob with
    | .ok _ => { l with restored? := (ram? blob).toOption }
    | .error _ => l
  | .loadBattery image now =>
    match s.loadBattery image now with
    | .ok _ => { exchanged := image.take s.cartridge.ramSize }
    | .error _ => l
  | .batteryImage now => { exchanged := (s.batteryImage now).2.take s.cartridge.ramSize }
  | _ => l

end Ledger

/-- A session and its ledger, after any calls. -/
inductive History : Session → Ledger → Prop
  | start {s : Session} (c : Cartridge) (settings : Settings) (now : Nat)
    (battery? snapshot? : Option Bytes) (h : start c settings now battery? snapshot? = .ok s) :
    History s (.start c battery? snapshot?)
  | call {s : Session} {l : Ledger} (h : History s l) (c : Call) :
    History (s.perform c) (l.record s c)

variable {s s' : Session} {l : Ledger}

def ram (s : Session) : Bytes := s.slot.ram.data.toList

/-- The RAM has its size, and is what the ledger says unless a host that keeps battery images
is told otherwise. -/
structure Agrees (s : Session) (l : Ledger) : Prop where
  size : s.slot.ram.size = s.cartridge.ramSize
  ram : s.cartridge.board.battery = true → s.batteryDirty = false → s.ram = l.ram

theorem tick_of_failure {failure : Failure} (h : s.failure? = some failure) (seconds : Float) :
    s.tick seconds = (s, .error failure) := by
  rw [tick, h]

def advanced (s : Session) (seconds : Float) : Machine :=
  ((s.machine.mapBus (·.press s.buttons)).runFor (s.settings.budget seconds)).1

/-- The session at the end of a tick that is run, but for a failure. -/
def ticked (s : Session) (seconds : Float) : Session :=
  { s with machine := s.advanced seconds }.collect.note (s.settings.budget seconds)

theorem fst_tick (h : s.failure? = none) (seconds : Float) :
    ∃ failure?, (s.tick seconds).1 = { s.ticked seconds with failure? } := by
  rw [tick, h, ticked, advanced]
  dsimp only
  generalize s.settings.budget seconds = dots
  split
  · exact ⟨none, by rw [← h]; rfl⟩
  · exact ⟨_, rfl⟩

/-- What the end of a tick takes note of about the battery. -/
theorem battery_note_collect (dots : Nat) (s : Session) :
    (s.collect.note dots).slot = s.machine.bus.slot.takeTouched.1 ∧
      (s.collect.note dots).batteryDirty =
        (s.batteryDirty || s.machine.bus.slot.touched && s.cartridge.board.battery) := ⟨rfl, rfl⟩

theorem slot_ticked (s : Session) (seconds : Float) :
    (s.ticked seconds).slot = (s.advanced seconds).bus.slot.takeTouched.1 :=
  (battery_note_collect _ _).1

theorem batteryDirty_ticked (s : Session) (seconds : Float) : (s.ticked seconds).batteryDirty =
    (s.batteryDirty || (s.advanced seconds).bus.slot.touched && s.cartridge.board.battery) :=
  (battery_note_collect _ _).2

/-- What is written to the RAM in a tick is marked. -/
theorem marks_advanced (s : Session) (seconds : Float) :
    s.slot.Marks (s.advanced seconds).bus.slot :=
  Machine.marks_runFor (s.settings.budget seconds) (s.machine.mapBus (·.press s.buttons))

/-- A tick that leaves the flag clean has found it clean, and has not changed the RAM. -/
theorem ram_tick (hb : s.cartridge.board.battery = true) {seconds : Float}
    (hd : (s.tick seconds).1.batteryDirty = false) :
    s.batteryDirty = false ∧ (s.tick seconds).1.ram = s.ram := by
  cases hf : s.failure? with
  | some failure =>
    rw [tick_of_failure hf] at hd ⊢
    exact ⟨hd, rfl⟩
  | none =>
    obtain ⟨failure?, ht⟩ := fst_tick hf seconds
    rw [ht] at hd ⊢
    have hflag := (batteryDirty_ticked s seconds).symm.trans hd
    rw [hb, Bool.and_true, Bool.or_eq_false_iff] at hflag
    refine ⟨hflag.1, ?_⟩
    have hram := congrArg Slot.ram (slot_ticked s seconds)
    exact congrArg (·.data.toList) (hram.trans (marks_advanced s seconds hflag.2).2)

theorem size_tick (s : Session) (seconds : Float) :
    (s.tick seconds).1.slot.ram.size = s.slot.ram.size := by
  cases hf : s.failure? with
  | some failure => rw [tick_of_failure hf]
  | none =>
    let pressed := s.machine.mapBus (·.press s.buttons)
    have hp := Machine.evolves_press s.buttons s.machine
    have hm := (hp.trans (Machine.evolves_runFor (s.settings.budget seconds) pressed)).hardware
    obtain ⟨failure?, ht⟩ := fst_tick hf seconds
    rw [ht]
    exact congrArg (fun h : Bus.Hardware => h.slot.ramSize) hm

theorem cartridge_tick (s : Session) (seconds : Float) :
    (s.tick seconds).1.cartridge = s.cartridge := by
  cases hf : s.failure? with
  | some failure => rw [tick_of_failure hf]
  | none =>
    obtain ⟨failure?, ht⟩ := fst_tick hf seconds
    rw [ht]
    rfl

theorem eq_of_restored {m m' : Machine} {blob : Bytes} (h : restored m blob = .ok m') :
    m.load blob = .ok m' := by
  rw [restored] at h
  cases hl : m.load blob with
  | error fault =>
    rw [hl] at h
    cases h
  | ok loaded =>
    rw [hl] at h
    cases h
    rfl

theorem slot_of_withBattery {m m' : Machine} {image : Bytes} {now : Nat}
    (h : withBattery m image now = .ok m') :
    m.core.bus.slot.loadBattery image now = .ok m'.core.bus.slot := by
  obtain ⟨slot, hl, h⟩ := bind_eq_ok.mp h
  cases h
  exact hl

/-- A battery image that is accepted brings the RAM, in the size of the cartridge's. -/
theorem ram_of_withBattery {m m' : Machine} {image : Bytes} {now : Nat}
    (h : withBattery m image now = .ok m') :
    m'.core.bus.slot.ram.size = m.core.bus.slot.ram.size ∧
      m'.core.bus.slot.ram.data.toList = image.take m.core.bus.slot.ram.size := by
  have hl := slot_of_withBattery h
  obtain ⟨_, hslot⟩ := Slot.eq_of_loadBattery hl
  refine ⟨congrArg Slot.Hardware.ramSize (Slot.hardware_loadBattery hl), ?_⟩
  rw [congrArg Slot.ram hslot]
  exact List.toList_data_toByteArray

/-- A snapshot that is accepted brings the RAM, in the size of the cartridge's. -/
theorem ram_of_restored {m m' : Machine} {blob : Bytes} (h : restored m blob = .ok m') :
    m'.core.bus.slot.ram.size = m.core.bus.slot.ram.size ∧
      (ram? blob).toOption = some m'.core.bus.slot.ram.data.toList := by
  obtain ⟨ram, hr, hsize, hram⟩ := Machine.ram_of_load (eq_of_restored h)
  rw [hram, List.toList_data_toByteArray, hr]
  exact ⟨List.size_toByteArray.trans hsize, rfl⟩

theorem eq_of_load {blob : Bytes} (h : s.load blob = .ok s') :
    ∃ m, restored s.machine blob = .ok m ∧ s' = s.install m := by
  obtain ⟨m, hr, h⟩ := bind_eq_ok.mp h
  cases h
  exact ⟨m, hr, rfl⟩

theorem eq_of_loadBattery {image : Bytes} {now : Nat} (h : s.loadBattery image now = .ok s') :
    ∃ m, withBattery s.machine image now = .ok m ∧
      s' = { s with machine := m, batteryDirty := false } := by
  obtain ⟨m, hw, h⟩ := bind_eq_ok.mp h
  cases h
  exact ⟨m, hw, rfl⟩

/-- A reset keeps the RAM and the flag. -/
theorem ram_reset {now : Nat} (h : s.reset now = .ok s') : s'.cartridge = s.cartridge ∧
    s'.batteryDirty = s.batteryDirty ∧ s'.slot.ram = s.slot.ram := by
  obtain ⟨m, _, h⟩ := bind_eq_ok.mp h
  cases h
  exact ⟨rfl, rfl, rfl⟩

/-- How a session starts: a console is switched on, and then takes a battery image and a
snapshot if there are any. The ring is empty. -/
theorem machines_of_start {c : Cartridge} {settings : Settings} {now : Nat}
    {battery? snapshot? : Option Bytes} (h : start c settings now battery? snapshot? = .ok s) :
    (s.cartridge = c ∧ s.settings = settings ∧ s.audio = .empty settings.audioCapacity) ∧
      ∃ fresh m,
        Machine.new c settings.model settings.bootRom? settings.sampleRate now = .ok fresh ∧
        (match battery? with
          | some image => withBattery fresh image now
          | none => .ok fresh) = .ok m ∧
        (match snapshot? with
          | some blob => restored m blob
          | none => .ok m) = .ok s.machine := by
  obtain ⟨fresh, hnew, h⟩ := bind_eq_ok.mp h
  cases battery? with
  | none =>
    cases snapshot? with
    | none =>
      cases h
      exact ⟨⟨rfl, rfl, rfl⟩, fresh, fresh, hnew, rfl, rfl⟩
    | some blob =>
      obtain ⟨_, hfresh, h⟩ := bind_eq_ok.mp h
      cases hfresh
      obtain ⟨m, hr, h⟩ := bind_eq_ok.mp h
      cases h
      exact ⟨⟨rfl, rfl, rfl⟩, fresh, fresh, hnew, rfl, hr⟩
  | some image =>
    obtain ⟨m, hw, h⟩ := bind_eq_ok.mp h
    cases snapshot? with
    | none =>
      cases h
      exact ⟨⟨rfl, rfl, rfl⟩, fresh, m, hnew, hw, rfl⟩
    | some blob =>
      obtain ⟨m', hr, h⟩ := bind_eq_ok.mp h
      cases h
      exact ⟨⟨rfl, rfl, rfl⟩, fresh, m, hnew, hw, hr⟩

/-- Without a battery image the RAM is blank. -/
theorem agrees_start {c : Cartridge} {settings : Settings} {now : Nat}
    {battery? snapshot? : Option Bytes} (h : start c settings now battery? snapshot? = .ok s) :
    Agrees s (.start c battery? snapshot?) := by
  obtain ⟨⟨rfl, _⟩, fresh, m, hnew, hm, hs⟩ := machines_of_start h
  have hfresh := Machine.slot_of_new hnew
  have hblank : fresh.core.bus.slot.ram.size = s.cartridge.ramSize := by
    rw [hfresh]
    exact Array.size_replicate
  have hbattery : m.core.bus.slot.ram.size = s.cartridge.ramSize ∧
      m.core.bus.slot.ram.data.toList = (Ledger.start s.cartridge battery? none).ram := by
    cases battery? with
    | none =>
      cases hm
      refine ⟨hblank, ?_⟩
      rw [hfresh]
      exact Array.toList_replicate
    | some image =>
      obtain ⟨hsize, hram⟩ := ram_of_withBattery hm
      exact ⟨hsize.trans hblank, hram.trans (congrArg (image.take ·) hblank)⟩
  cases snapshot? with
  | none =>
    have hmachine : m = s.machine := Except.ok.inj hs
    rw [hmachine] at hbattery
    exact ⟨hbattery.1, fun _ _ => hbattery.2⟩
  | some blob =>
    obtain ⟨hsize, hram⟩ := ram_of_restored hs
    refine ⟨hsize.trans hbattery.1, fun _ _ => ?_⟩
    simp only [Ledger.ram, Ledger.start, Option.bind_some, hram]
    rfl

theorem Agrees.perform (h : Agrees s l) (c : Call) : Agrees (s.perform c) (l.record s c) := by
  cases c with
  | setButtons buttons => exact ⟨h.size, h.ram⟩
  | tick seconds =>
    refine ⟨?_, fun hb hd => ?_⟩
    · exact ((size_tick s seconds).trans h.size).trans (congrArg _ (cartridge_tick s seconds)).symm
    · simp only [Session.perform, cartridge_tick] at hb
      obtain ⟨hd, hr⟩ := ram_tick hb hd
      exact hr.trans (h.ram hb hd)
  | takeLines => exact ⟨h.size, h.ram⟩
  | load blob =>
    simp only [Session.perform, Ledger.record]
    cases hl : s.load blob with
    | error failure => exact h
    | ok s' =>
      obtain ⟨m, hm, rfl⟩ := eq_of_load hl
      obtain ⟨hsize, hram⟩ := ram_of_restored hm
      refine ⟨hsize.trans h.size, fun _ _ => ?_⟩
      rw [Ledger.ram, hram]
      rfl
  | loadBattery image now =>
    simp only [Session.perform, Ledger.record]
    cases hl : s.loadBattery image now with
    | error failure => exact h
    | ok s' =>
      obtain ⟨m, hm, rfl⟩ := eq_of_loadBattery hl
      obtain ⟨hsize, hram⟩ := ram_of_withBattery hm
      refine ⟨hsize.trans h.size, fun _ _ => hram.trans ?_⟩
      exact congrArg (image.take ·) h.size
  | batteryImage now =>
    refine ⟨h.size, fun _ _ => ?_⟩
    have hlength : s.ram.length = s.cartridge.ramSize := h.size
    exact (List.take_left' hlength).symm
  | reset now =>
    simp only [Session.perform, Ledger.record]
    cases hr : s.reset now with
    | error failure => exact h
    | ok s' =>
      obtain ⟨hc, hd, hram⟩ := ram_reset hr
      refine ⟨?_, ?_⟩
      · simp only [Except.toOption, Option.getD, hc, hram, h.size]
      · simp only [Except.toOption, Option.getD, hc, hd, Session.ram, hram]
        exact h.ram
  | setClock days hours minutes seconds now =>
    have hslot : (s.setClock days hours minutes seconds now).1.slot.ram = s.slot.ram := by
      change (s.slot.setClock days hours minutes seconds now).1.ram = s.slot.ram
      rw [Slot.setClock]
      split <;> rfl
    refine ⟨(congrArg _ hslot).trans h.size, fun hb hd => ?_⟩
    exact (congrArg (·.data.toList) hslot).trans (h.ram hb hd)

theorem History.agrees (h : History s l) : Agrees s l := by
  induction h with
  | start c settings now battery? snapshot? h => exact agrees_start h
  | call _ c ih => exact ih.perform c

end Session

/-! ## A cartridge with a battery -/

/-- An image of zeros, but for a board with RAM and a battery in its header. -/
def Cartridge.savedImage : ByteArray :=
  ⟨(List.replicate 0x147 (0 : UInt8) ++ [0x09, 0, 0x02, 0, 0, 0, 0xDC, 0, 0]).toArray⟩

/-- The cartridge with that image: RAM of 8 KiB, without a controller. -/
def Cartridge.saved : Cartridge where
  image := savedImage
  title := titleOf savedImage
  kind := 0x09
  board := { mapper := .none, battery := true }
  romBanks := 2
  ramSize := 0x2000
  color := .none
  checksum := 0xDC

theorem Cartridge.ofImage_saved : ofImage savedImage = .ok saved := by
  have hsize : ¬ savedImage.size < headerEnd := by decide +kernel
  have hsum : headerChecksum savedImage = 0xDC := by decide +kernel
  have hbyte : headerByte savedImage 0x14D = 0xDC := by decide +kernel
  have hkind : headerByte savedImage 0x147 = 0x09 := by decide +kernel
  have hrom : headerByte savedImage 0x148 = 0 := by decide +kernel
  have hram : headerByte savedImage 0x149 = 0x02 := by decide +kernel
  have hcolor : colorOf savedImage = .none := by decide +kernel
  simp only [ofImage, hsize, hsum, hbyte, hkind, hrom, hram, hcolor]
  rfl

def Origin.saved : Origin where
  image := Cartridge.savedImage
  cartridge := Cartridge.saved
  accepted := Cartridge.ofImage_saved
  model := .dmg
  bootRom? := none
  sampleRate := 44100

namespace Session

variable {s : Session} {l : Ledger}

theorem loadBattery_of_slot {slot : Slot} {image : Bytes} {now : Nat}
    (h : s.slot.loadBattery image now = .ok slot) : s.loadBattery image now =
      .ok { s with machine := s.machine.withSlot slot, batteryDirty := false } := by
  have hw : withBattery s.machine image now = .ok (s.machine.withSlot slot) := by
    rw [withBattery]
    change (s.slot.loadBattery image now >>= _) = _
    rw [h]
    rfl
  rw [loadBattery, hw]
  rfl

theorem restored_of_load {m m' : Machine} {blob : Bytes} (h : m.load blob = .ok m') :
    restored m blob = .ok m' := by
  rw [restored, h]
  rfl

theorem load_of_machine {m : Machine} {blob : Bytes} (h : s.machine.load blob = .ok m) :
    s.load blob = .ok (s.install m) := by
  rw [load, restored_of_load h]
  rfl

theorem start_saved : ∃ s, start .saved {} 0 none none = .ok s ∧
    s.machine = Origin.saved.booted 0 ∧ s.cartridge = .saved :=
  ⟨_, rfl, rfl, rfl⟩

/-! ## The flag -/

/-- Whatever the host does: while the flag of a cartridge with a battery is clean, after a
tick or at any other time, the RAM is what the ledger says. So it is the RAM of the battery
image that was exchanged last, unless a snapshot that was accepted since brought another. -/
theorem ram_of_clean (h : History s l) (hb : s.cartridge.board.battery = true)
    (hd : s.batteryDirty = false) :
    s.ram = l.ram ∧ (s.ram = l.exchanged ↔ ∀ ram ∈ l.restored?, ram = l.exchanged) := by
  have hr := h.agrees.ram hb hd
  refine ⟨hr, ?_⟩
  rw [hr, Ledger.ram]
  cases l.restored? with
  | none => exact ⟨fun _ => nofun, fun _ => rfl⟩
  | some ram => simp

/-- A session that starts, takes a battery image, and goes back to the snapshot of its
start: the flag is clean, and the RAM is not that of the image. -/
theorem ram_of_clean_saved : ∃ s l, History s l ∧ s.cartridge.board.battery = true ∧
    s.batteryDirty = false ∧ l.exchanged = List.replicate 0x2000 0x55 ∧
    s.ram = List.replicate 0x2000 0 := by
  obtain ⟨s, hstart, hm, hc⟩ := start_saved
  generalize himage : List.replicate 0x2000 (0x55 : UInt8) = image
  have hlength : image.length = 0x2000 := himage ▸ List.length_replicate
  have hgenuine : Machine.Genuine .saved s.machine := by
    rw [hm]
    exact .powerOn 0 rfl
  have hreachable := hgenuine.reachable
  have hblank : s.slot.ram.data.toList = List.replicate 0x2000 0 := by
    rw [slot, hm]
    exact Array.toList_replicate
  have hsize : s.slot.ram.size = 0x2000 := by
    rw [← List.length_replicate (n := 0x2000) (a := (0 : UInt8)), ← hblank]
    rfl
  -- The image is taken, and then the snapshot.
  obtain ⟨slot, hslot⟩ : ∃ slot, s.slot.loadBattery image 0 = .ok slot :=
    ⟨_, if_pos (.inl (hlength.trans hsize.symm))⟩
  have hbattery := loadBattery_of_slot hslot
  have hhardware : (s.machine.withSlot slot).hardware = s.machine.hardware :=
    (Machine.evolves_withSlot (Slot.hardware_loadBattery hslot)
      fun h => h.loadBattery (by decide) hslot).hardware
  have hloaded := Machine.load_snapshot hreachable.inRange hgenuine.dots_le hhardware
    hreachable.ramSize_lt
  have hload : { s with machine := s.machine.withSlot slot, batteryDirty := false }.load
      s.snapshot = _ := load_of_machine hloaded
  have hhistory :=
    ((History.start _ _ _ _ _ hstart).call (.loadBattery image 0)).call (.load s.snapshot)
  simp only [perform, Ledger.record, hbattery, Except.toOption, Option.getD_some, hload] at hhistory
  have hrestored := (ram_of_restored (restored_of_load hloaded)).2
  refine ⟨_, _, hhistory, ?_, rfl, ?_, ?_⟩
  · simp only [install, hc]
    rfl
  · simp only [hc]
    exact List.take_of_length_le (Nat.le_of_eq hlength)
  · have hram := (ram_of_clean hhistory (by simp only [install, hc]; rfl) rfl).1
    rw [hram]
    exact (congrArg (fun o : Option Bytes => o.getD _) hrestored).trans hblank

end Session

end DotMatrix
