import DotMatrix.Proofs.Cartridge.History
import DotMatrix.Proofs.Cartridge.Seconds

/-!
# Battery images

A battery image takes RAM and clock to any slot that holds the same cartridge. A clock that
was not halted has gone on in between, and it does not matter whether on the way the image was
loaded and saved again.
-/
namespace DotMatrix

namespace Clock

namespace Counters

variable {c : Counters} {m n : Nat}

def after (elapsed : Nat) (c : Counters) : Counters :=
  if c.halted then c else c.advance (min elapsed maxCatchUp)

theorem halted_after (n : Nat) (c : Counters) : (c.after n).halted = c.halted := by
  rw [after]
  split
  · rfl
  · exact halted_advance _ _

/-- A stop on the way makes no difference, as long as all that has passed is caught up. -/
theorem after_after (h : m + n ≤ maxCatchUp) : (c.after m).after n = c.after (m + n) := by
  rw [after, halted_after, after, after]
  split
  · rfl
  · rw [← advance_add, Nat.min_eq_left (by omega), Nat.min_eq_left (by omega),
      Nat.min_eq_left h]

theorem after_eq_repeat_tick (h : c.Fits) (n : Nat) :
    c.after n = if c.halted then c else Nat.repeat tick (min n maxCatchUp) c := by
  rw [after, advance_eq_repeat_tick h]

end Counters

/-- The clock `k₀` once it goes on from where `k` was saved. -/
def resumed (saved now : Nat) (k k₀ : Clock) : Clock :=
  { k₀ with live := k.live.after (now - saved), latched := k.latched, anchor := now, dots := 0 }

variable {k k₀ : Clock} {saved now now' : Nat}

theorem catchUp_loadTail (h : k.InRange) (hsaved : saved < byteSpan 8) (now : Nat) (k₀ : Clock) :
    (k₀.loadTail (tail.write { k with anchor := saved })).catchUp now = k.resumed saved now k₀ := by
  rw [loadTail_write (h.reanchor hsaved)]
  rfl

theorem resumed_resumed (h : saved ≤ now) (h' : now ≤ now') (hmax : now' - saved ≤ maxCatchUp) :
    (k.resumed saved now k₀).resumed now now' = k.resumed saved now' := by
  have hsum : now - saved + (now' - now) = now' - saved := by omega
  funext k₁
  simp only [resumed, Counters.after_after (hsum ▸ hmax), hsum]

end Clock

namespace Slot

open Snapshot

/-- Offers a battery image. What is refused changes nothing. -/
def offerBattery (s : Slot) (image : Bytes) (now : Nat) : Slot :=
  (s.loadBattery image now).toOption.getD s

/-- The slots that have held the cartridge since it was inserted, whatever the program and the
host did, and whatever sections of a snapshot were loaded in part or in whole. -/
inductive Reached (c : Cartridge) : Slot → Prop
  | inserted (now : UInt64) : Reached c (insert c now.toNat)
  | act {s : Slot} (a : Act) (h : Reached c s) : Reached c (a.apply c s)
  | saved {s : Slot} (now : UInt64) (h : Reached c s) :
    Reached c (s.batteryImage now.toNat).1
  | offered {s : Slot} (image : Bytes) (now : UInt64) (h : Reached c s) :
    Reached c (s.offerBattery image now.toNat)
  | loadController {s : Slot} (payload : Bytes) (h : Reached c s) :
    Reached c (controllerLayout.load payload s).1
  | loadRam {s : Slot} (payload : Bytes) (h : Reached c s) :
    Reached c (ramLayout.load payload s).1

variable {c : Cartridge} {s d e : Slot}

theorem keeps_controllerLayout (hardware : Hardware) :
    controllerLayout.Keeps fun s => s.InRange ∧ s.hardware = hardware := by
  refine Layout.keeps_part (Controller.keeps_layout hardware.kind) (fun s h => ?_)
    fun s r h hr => ?_
  · exact ⟨h.1, congrArg Hardware.kind h.2⟩
  · refine ⟨hr.1, (hardware_of_controller ?_).trans h.2⟩
    rw [hr.2, ← h.2]
    rfl

theorem keeps_ramLayout (hardware : Hardware) :
    ramLayout.Keeps fun s => s.InRange ∧ s.hardware = hardware := by
  intro bytes s h
  simp only [ramLayout]
  split
  · rename_i hsize
    have hram : bytes.toByteArray.size = s.ram.size := by rw [List.size_toByteArray, hsize]
    refine ⟨h.1, Eq.trans ?_ h.2⟩
    simp only [Slot.hardware, hram]
  · exact h

theorem Reached.kept (h : Reached c s) : s.InRange ∧ s.hardware = (insert c 0).hardware := by
  induction h with
  | inserted now => exact ⟨inRange_insert c now.toNat_lt, hardware_insert c _ 0⟩
  | act a _ ih => exact ⟨ih.1.apply a, hardware_apply ih.2 a⟩
  | saved now _ ih =>
    exact ⟨ih.1.batteryImage now.toNat_lt, (hardware_batteryImage _ _).trans ih.2⟩
  | @offered s image now _ ih =>
    rw [offerBattery]
    cases hl : s.loadBattery image now.toNat with
    | ok s' => exact ⟨ih.1.loadBattery now.toNat_lt hl, (hardware_loadBattery hl).trans ih.2⟩
    | error failure => exact ih
  | @loadController s payload _ ih => exact (keeps_controllerLayout _).load ih rfl
  | @loadRam s payload _ ih => exact (keeps_ramLayout _).load ih rfl

/-! ## From one slot to another -/

/-- The slot `d` once it goes on from where `s` was saved. -/
def resumed (saved now : Nat) (s d : Slot) : Slot :=
  { d with
    ram := s.ram
    controller :=
      match s.controller.clock? with
      | some k => d.controller.mapClock (k.resumed saved now)
      | none => d.controller }

section Load

variable {ram tail : Bytes}

/-- An image without a clock moves the anchor of the clock in the slot. -/
theorem loadBattery_of_ram (h : ram.length = d.ram.size) (now : Nat) :
    d.loadBattery ram now = .ok { d with
      ram := ram.toByteArray
      controller := d.controller.mapClock ({ · with anchor := now }) } := by
  simp [loadBattery, h, List.take_of_length_le (Nat.le_of_eq h)]

theorem loadBattery_append (hram : ram.length = d.ram.size) (hclock : d.hasClock = true)
    (htail : tail.length = Clock.tailSize) (now : Nat) :
    d.loadBattery (ram ++ tail) now = .ok { d with
      ram := ram.toByteArray
      controller := d.controller.mapClock fun k => (k.loadTail tail).catchUp now } := by
  have hne : Clock.tailSize ≠ 0 := by decide
  simp [loadBattery, hclock, ← hram, htail, hne]

end Load

theorem loadBattery_batteryImage (hs : s.InRange) (hd : d.hardware = s.hardware) {saved : Nat}
    (hsaved : saved < byteSpan 8) (now : Nat) :
    d.loadBattery (s.batteryImage saved).2 now = .ok (s.resumed saved now d) := by
  have hsize : s.ram.data.toList.length = d.ram.size := (congrArg Hardware.ramSize hd).symm
  have hclock : d.hasClock = s.hasClock := congrArg (·.kind.2) hd
  have hram : s.ram.data.toList.toByteArray = s.ram := by
    apply ByteArray.ext
    simp
  simp only [batteryImage, Controller.clock?_mapClock]
  rw [resumed]
  cases hk : s.controller.clock? with
  | none =>
    have hnone : d.controller.clock? = none := by simpa [hasClock, hk] using hclock
    simp only [Option.map_none, List.append_nil]
    rw [loadBattery_of_ram hsize, hram, Controller.mapClock_eq_self (by simp [hnone])]
  | some k =>
    have hsome : d.hasClock = true := by rw [hclock, hasClock, hk, Option.isSome_some]
    have hrange := Controller.InRange.clock hs k hk
    simp only [Option.map_some]
    rw [loadBattery_append hsize hsome (Clock.length_write_tail _), hram,
      funext (Clock.catchUp_loadTail hrange hsaved now)]

/-- The size of a battery image tells whether it is accepted. -/
theorem loadBattery_of_length {data : Bytes} (hram : data.length ≠ d.ram.size)
    (htail : d.hasClock = true → data.length ≠ d.ram.size + Clock.tailSize) (now : Nat) :
    d.loadBattery data now = .error (.batterySize
      (d.ram.size + if d.hasClock then Clock.tailSize else 0) data.length) := by
  rw [loadBattery]
  cases h : d.hasClock <;> simp_all

theorem exists_clock {k : Clock} (hd : d.hasClock = s.hasClock)
    (hk : s.controller.clock? = some k) : ∃ k₀, d.controller.clock? = some k₀ :=
  Option.isSome_iff_exists.mp (by simpa [hasClock, hk] using hd)

theorem clock?_resumed {k k₀ : Clock} {saved now : Nat} (hk : s.controller.clock? = some k)
    (hk₀ : d.controller.clock? = some k₀) :
    (s.resumed saved now d).controller.clock? = some (k.resumed saved now k₀) := by
  simp only [resumed, hk, Controller.clock?_mapClock, hk₀, Option.map_some]

theorem resumed_resumed {saved now now' : Nat} (hd : d.hasClock = s.hasClock) (h : saved ≤ now)
    (h' : now ≤ now') (hmax : now' - saved ≤ Clock.maxCatchUp) :
    (s.resumed saved now d).resumed now now' e = s.resumed saved now' e := by
  cases hk : s.controller.clock? with
  | none =>
    have hk₀ : d.controller.clock? = none := by simpa [hasClock, hk] using hd
    simp only [resumed, hk, hk₀]
  | some k =>
    obtain ⟨k₀, hk₀⟩ := exists_clock hd hk
    have hclock : (s.resumed saved now d).controller.clock? = some (k.resumed saved now k₀) :=
      clock?_resumed hk hk₀
    rw [resumed, hclock]
    simp only [Clock.resumed_resumed h h' hmax, resumed, hk]

/-- Any slot with the same cartridge goes on from the battery image of another: with its RAM,
and with its clock, which has counted the seconds since unless it was halted. Two hops are as
good as one. An image of another size is refused. -/
theorem battery_resumes {image : ByteArray} (hc : Cartridge.ofImage image = .ok c)
    (hs : Reached c s) (hd : Reached c d) (he : Reached c e) (t₀ t₁ t₂ : UInt64) :
    (∃ d', d.loadBattery (s.batteryImage t₀.toNat).2 t₁.toNat = .ok d' ∧ d'.ram = s.ram ∧
      s.hasClock = c.board.clock ∧ d'.hasClock = c.board.clock ∧
      (∀ k ∈ s.controller.clock?, ∀ k' ∈ d'.controller.clock?,
        k'.latched = k.latched ∧ k'.anchor = t₁.toNat ∧
          k'.live = if k.live.halted then k.live else
            Nat.repeat Clock.Counters.tick (min (t₁.toNat - t₀.toNat) (2 ^ 30)) k.live) ∧
      (t₀ ≤ t₁ → t₁ ≤ t₂ → t₂.toNat - t₀.toNat ≤ 2 ^ 30 →
        e.loadBattery (d'.batteryImage t₁.toNat).2 t₂.toNat =
          e.loadBattery (s.batteryImage t₀.toNat).2 t₂.toNat)) ∧
      ∀ (data : Bytes) (now : UInt64), data.length ≠ c.ramSize →
        (c.board.clock = true → data.length ≠ c.ramSize + 48) →
          d.loadBattery data now.toNat = .error (.batterySize
            (c.ramSize + if c.board.clock then 48 else 0) data.length) ∧
            d.offerBattery data now.toNat = d := by
  have haccepted := Cartridge.accepted_of_ofImage hc
  obtain ⟨hsr, hsh⟩ := hs.kept
  obtain ⟨hdr, hdh⟩ := hd.kept
  obtain ⟨_, heh⟩ := he.kept
  have hclock := hasClock_of_hardware haccepted hdh
  have hsame : d.hasClock = s.hasClock := congrArg (·.kind.2) (hdh.trans hsh.symm)
  have hload := loadBattery_batteryImage hsr (hdh.trans hsh.symm) t₀.toNat_lt t₁.toNat
  have hr' : (s.resumed t₀.toNat t₁.toNat d).InRange := hdr.loadBattery t₁.toNat_lt hload
  have hh' : (s.resumed t₀.toNat t₁.toNat d).hardware = (insert c 0).hardware :=
    (hardware_loadBattery hload).trans hdh
  refine ⟨⟨_, hload, rfl, hasClock_of_hardware haccepted hsh, hasClock_of_hardware haccepted hh',
    fun k hk k' hk' => ?_, fun h h' hmax => ?_⟩, fun data now hram htail => ?_⟩
  · obtain ⟨k₀, hk₀⟩ := exists_clock hsame hk
    rw [clock?_resumed hk hk₀] at hk'
    cases hk'
    exact ⟨rfl, rfl, Clock.Counters.after_eq_repeat_tick (Controller.InRange.clock hsr k hk).live _⟩
  · rw [loadBattery_batteryImage hr' (heh.trans hh'.symm) t₁.toNat_lt,
      loadBattery_batteryImage hsr (heh.trans hsh.symm) t₀.toNat_lt,
      resumed_resumed hsame (UInt64.le_iff_toNat_le.mp h) (UInt64.le_iff_toNat_le.mp h') hmax]
  · have hsize : d.ram.size = c.ramSize :=
      (congrArg Hardware.ramSize hdh).trans Array.size_replicate
    have hram' : data.length ≠ d.ram.size := by rwa [hsize]
    have htail' : d.hasClock = true → data.length ≠ d.ram.size + Clock.tailSize := by
      rw [hsize, hclock]
      exact htail
    have herror := loadBattery_of_length hram' htail' now.toNat
    rw [hsize, hclock] at herror
    exact ⟨herror, by rw [offerBattery, herror]; rfl⟩

/-- Two seconds before its days run over a clock is set, latched and saved. A minute and two
seconds later the days have run over in another slot, where an image without the last byte
would have been refused. -/
theorem battery_resumes_timed :
    let s := replay .timed 0 [.writeRom 0x6000 1, .writeRom 0x6000 0, .setClock 511 23 59 58 100]
    let d := insert .timed 7
    Cartridge.ofImage Cartridge.timedImage = .ok .timed ∧ Reached .timed s ∧ Reached .timed d ∧
      (∃ d', d.loadBattery (s.batteryImage 100).2 162 = .ok d' ∧ d'.ram = s.ram ∧
        (∃ k', d'.controller.clock? = some k' ∧ k'.live = { minutes := 1, carry := true } ∧
          k'.latched = { days := 511, hours := 23, minutes := 59, seconds := 58 }) ∧
        d.loadBattery (d'.batteryImage 162).2 165 = d.loadBattery (s.batteryImage 100).2 165) ∧
      d.loadBattery (List.replicate 0x802F 0) 162 = .error (.batterySize 0x8030 0x802F) := by
  intro s d
  have hs : Reached .timed s := ((((Reached.inserted 0).act _).act _).act _)
  have hd : Reached .timed d := .inserted 7
  have hk : s.controller.clock? = some {
      live := { days := 511, hours := 23, minutes := 59, seconds := 58 }
      latched := { days := 511, hours := 23, minutes := 59, seconds := 58 }
      anchor := 100, latch := 1 } := by
    decide +kernel
  obtain ⟨⟨d', hload, hram, _, hclock, hcounters, hhops⟩, hrefused⟩ :=
    battery_resumes Cartridge.ofImage_timed hs hd hd 100 162 165
  obtain ⟨k', hk'⟩ := Option.isSome_iff_exists.mp hclock
  obtain ⟨hlatched, _, hlive⟩ := hcounters _ hk k' hk'
  refine ⟨Cartridge.ofImage_timed, hs, hd, ⟨d', hload, hram, ⟨k', hk', ?_, hlatched⟩,
    hhops (by decide) (by decide) (by decide)⟩, ?_⟩
  · rw [hlive]
    decide +kernel
  · have hlength : (List.replicate 0x802F (0 : UInt8)).length = 0x802F := List.length_replicate
    obtain ⟨herror, _⟩ := hrefused (List.replicate 0x802F 0) 162 (by rw [hlength]; decide)
      (fun _ => by rw [hlength]; decide)
    rw [hlength] at herror
    exact herror

end Slot

end DotMatrix
