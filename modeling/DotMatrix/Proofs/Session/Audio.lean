import DotMatrix.Proofs.Audio.Ring
import DotMatrix.Proofs.Machine.Frames
import DotMatrix.Proofs.Session.Battery
import DotMatrix.Proofs.Width

/-!
# A host that keeps up

A tick hands the frames of the machine to the ring at its end, so the ring has to hold what
one tick makes. The budget and the longest step bound the dots of a tick, the rate of the
host bounds the frames that come of them, and the ring was built for two video frames at
that rate. A host that finds the ring empty before each tick of no more than one and a half
video frames loses no audio, in whatever state the machine is and however the tick ends.
-/
namespace DotMatrix

open Audio Width

/-! ## The capacity of the ring -/

namespace Settings

variable {s : Settings}

/-- The slots of the ring, in words of 64 bits that may not overflow. -/
def slotsInWords (s : Settings) : Option Nat := do
  let latency ← word 64 (s.sampleRate * s.audioLatency)
  let doubled ← word 64 (latency * 2)
  let videoFrames ← word 64 ((s.sampleRate + 59) / 60 * 2)
  word 64 (Ring.slotsFor (max (doubled / 1000) videoFrames))

theorem audioCapacity_le (hmax : s.sampleRate ≤ Sound.maxSampleRate) :
    s.audioCapacity ≤ 2 ^ 62 := by
  have hmax : s.sampleRate ≤ 192000 := hmax
  simp only [audioCapacity]
  omega

/-- The ring holds two video frames of audio. -/
theorem videoFrames_le_audioCapacity (s : Settings) :
    2 * ((s.sampleRate + 59) / 60) ≤ s.audioCapacity := Nat.le_max_right _ _

theorem slotsInWords_eq (hmax : s.sampleRate ≤ Sound.maxSampleRate)
    (hlatency : s.audioLatency < 2 ^ 32) :
    s.slotsInWords = some (Ring.slotsFor s.audioCapacity) := by
  have hmax' : s.sampleRate ≤ 192000 := hmax
  have hproduct : s.sampleRate * s.audioLatency ≤ 192000 * 2 ^ 32 :=
    Nat.mul_le_mul hmax' (Nat.le_of_lt hlatency)
  have hslots : Ring.slotsFor s.audioCapacity < 2 ^ 64 :=
    Nat.lt_of_le_of_lt (Ring.slotsFor_le (audioCapacity_le hmax) (Nat.succ_ne_zero 61)) (by decide)
  have hdoubled : s.sampleRate * s.audioLatency * 2 % 0x10000000000000000 =
      s.sampleRate * s.audioLatency * 2 := Nat.mod_eq_of_lt (by omega)
  rw [audioCapacity, hdoubled, Nat.mul_comm 2] at hslots ⊢
  have hlatencyWord : s.sampleRate * s.audioLatency < 2 ^ 64 := by omega
  have hdoubledWord : s.sampleRate * s.audioLatency * 2 < 2 ^ 64 := by omega
  have hframesWord : (s.sampleRate + 59) / 60 * 2 < 2 ^ 64 := by omega
  simp only [slotsInWords, word_of_lt hlatencyWord, word_of_lt hdoubledWord,
    word_of_lt hframesWord, word_of_lt hslots, Option.bind_eq_bind, Option.bind_some]

end Settings

/-! ## Machines at a rate -/

namespace Machine

variable {m m' : Machine} {rate : Nat}

/-- What the length of steps and the number of frames depend on: the sound unit is in range
and keeps to the rate, and so do the transfers and what is owed for them. -/
structure Tuned (rate : Nat) (m : Machine) : Prop where
  color : m.core.bus.video.features.1 = true → m.core.bus.video.features.2 = true
  bounded : m.Bounded
  sound : m.core.bus.sound.InRange
  rate : m.sampleRate = rate

def frames (m : Machine) : Array Frame := m.core.bus.sound.frames

theorem Tuned.consistent (h : m.Tuned rate) : m.hardware.Consistent :=
  ⟨h.color, h.sound.resampler.supported.min, h.sound.resampler.supported.max⟩

theorem Tuned.of_bus (h : m.Tuned rate) (hb : Bus.Evolves m.core.bus m'.core.bus)
    (hm : m'.Bounded) : m'.Tuned rate where
  color :=
    have hvideo : m'.core.bus.video.features = m.core.bus.video.features :=
      congrArg Bus.Hardware.video hb.hardware
    hvideo.symm ▸ h.color
  bounded := hm
  sound := hb.sound h.sound
  rate :=
    have hrate : m'.sampleRate = m.sampleRate := sampleRate_of_hardware hb.hardware
    hrate.trans h.rate

theorem Tuned.evolves (h : m.Tuned rate) (he : Evolves m m') : m'.Tuned rate :=
  h.of_bus he.bus (he.bounded h.bounded)

/-- Nothing else of a machine matters. -/
theorem Tuned.congr (h : m.Tuned rate)
    (hvideo : m'.core.bus.video.features = m.core.bus.video.features)
    (hsound : m'.core.bus.sound = m.core.bus.sound) (hm : m'.Bounded) : m'.Tuned rate where
  color := hvideo.symm ▸ h.color
  bounded := hm
  sound := hsound ▸ h.sound
  rate := (congrArg Sound.sampleRate hsound).trans h.rate

/-- Whatever slot is put in. -/
theorem Tuned.withSlot (h : m.Tuned rate) (slot : Slot) : (m.withSlot slot).Tuned rate :=
  h.congr rfl rfl { h.bounded with }

/-- A snapshot brings no frames along. -/
theorem Tuned.load (h : m.Tuned rate) {blob : Bytes} (hl : m.load blob = .ok m') :
    m'.Tuned rate ∧ m'.frames = #[] := by
  obtain ⟨_, _, _, hloaded⟩ := loaded_of_load h.consistent hl
  have hhardware := hloaded.kept.hardware
  obtain ⟨_, hsound⟩ := hloaded.sound
  have hin := hloaded.kept.inRange
  refine ⟨⟨hin.bus.consistent.color, hin.bounded, hin.bus.sound, ?_⟩, Sound.frames_of_load hsound⟩
  exact (sampleRate_of_hardware hhardware).trans h.rate

/-- The rate that a host gets for the one that it asks for. -/
def supportedRate (sampleRate : Nat) : Nat :=
  min (max sampleRate Sound.minSampleRate) Sound.maxSampleRate

theorem supportedRate_of_bounds {sampleRate : Nat} (hmin : Sound.minSampleRate ≤ sampleRate)
    (hmax : sampleRate ≤ Sound.maxSampleRate) : supportedRate sampleRate = sampleRate := by
  rw [supportedRate, Nat.max_eq_left hmin, Nat.min_eq_left hmax]

/-- A console before power, with any slot. -/
theorem tuned_off {model : Model} {cgb : Bool} (hc : cgb = true → model.isColor = true)
    (slot : Slot) (sampleRate : Nat) :
    Tuned (supportedRate sampleRate)
      { core := { cpu := {}, bus := .new slot model cgb sampleRate } } where
  color := hc
  bounded :=
    ⟨⟨(by decide : Bus.blockAddress 0x8000 = 0x8000), Nat.zero_le _⟩, Nat.zero_le _, Nat.zero_le _⟩
  sound := Sound.inRange_off model.isColor sampleRate
  rate := rfl

theorem tuned_new {c : Cartridge} {model : Model} {bootRom? : Option BootRom}
    {sampleRate now : Nat} (h : Machine.new c model bootRom? sampleRate now = .ok m) :
    m.Tuned (supportedRate sampleRate) ∧ m.frames = #[] := by
  have hc : c.runsInColor model = true → model.isColor = true := by
    intro hc
    simp only [Cartridge.runsInColor, Bool.and_eq_true] at hc
    exact hc.1
  have hoff := tuned_off hc (.insert c now) sampleRate
  unfold Machine.new at h
  dsimp only at h
  split at h
  · cases h
    exact ⟨hoff.of_bus (Bus.evolves_boot _) { hoff.bounded with }, Sound.frames_boot _⟩
  · split at h
    · cases h
      refine ⟨hoff.congr ?_ rfl { hoff.bounded with }, rfl⟩
      dsimp only
      split <;> rfl
    · cases h

end Machine

namespace Session

open Machine

variable {s s' : Session} {seconds : Float}

/-! ## Sessions -/

def listen (s : Session) (buffer : List Int16) : Session :=
  { s with audio := (s.audio.popInto buffer).1 }

/-- The sessions that there are, whatever their cartridge and whatever the host does. -/
inductive Reached : Session → Prop
  | start {s : Session} (c : Cartridge) (settings : Settings) (now : Nat)
    (battery? snapshot? : Option Bytes) (h : start c settings now battery? snapshot? = .ok s) :
    Reached s
  | call {s : Session} (h : Reached s) (c : Call) : Reached (s.perform c)
  | listen {s : Session} (h : Reached s) (buffer : List Int16) : Reached (s.listen buffer)

/-- Between two calls the machine is tuned to the rate of the settings, no frame waits in
it, and the ring has the capacity of the settings. -/
structure Audible (s : Session) : Prop where
  tuned : s.machine.Tuned (supportedRate s.settings.sampleRate)
  collected : s.machine.frames = #[]
  capacity : s.audio.capacity = Ring.slotsFor s.settings.audioCapacity

/-- A call that leaves the audio and the settings alone. -/
theorem Audible.of_machine (h : s.Audible) (hsettings : s'.settings = s.settings)
    (haudio : s'.audio = s.audio)
    (hm : s'.machine.Tuned (supportedRate s.settings.sampleRate) ∧ s'.machine.frames = #[]) :
    s'.Audible where
  tuned := hsettings ▸ hm.1
  collected := hm.2
  capacity := by rw [haudio, hsettings, h.capacity]

theorem Audible.mapSlot (h : s.Audible) (f : Slot → Slot) : (s.mapSlot f).Audible :=
  h.of_machine rfl rfl ⟨h.tuned.withSlot _, h.collected⟩

theorem tuned_of_withBattery {m m' : Machine} {rate : Nat} {image : Bytes} {now : Nat}
    (hm : m.Tuned rate ∧ m.frames = #[]) (h : withBattery m image now = .ok m') :
    m'.Tuned rate ∧ m'.frames = #[] := by
  obtain ⟨slot, _, h⟩ := bind_eq_ok.mp h
  cases h
  exact ⟨hm.1.withSlot slot, hm.2⟩

theorem tuned_of_restored {m m' : Machine} {rate : Nat} {blob : Bytes} (hm : m.Tuned rate)
    (h : restored m blob = .ok m') : m'.Tuned rate ∧ m'.frames = #[] :=
  hm.load (eq_of_restored h)

theorem audible_start {c : Cartridge} {settings : Settings} {now : Nat}
    {battery? snapshot? : Option Bytes} (h : start c settings now battery? snapshot? = .ok s) :
    s.Audible := by
  obtain ⟨⟨_, rfl, haudio⟩, fresh, m, hnew, hm, hs⟩ := machines_of_start h
  have hfresh := tuned_new hnew
  have hbattery : m.Tuned (supportedRate s.settings.sampleRate) ∧ m.frames = #[] := by
    cases battery? with
    | none =>
      cases hm
      exact hfresh
    | some image => exact tuned_of_withBattery hfresh hm
  have hmachine : s.machine.Tuned (supportedRate s.settings.sampleRate) ∧
      s.machine.frames = #[] := by
    cases snapshot? with
    | none =>
      cases hs
      exact hbattery
    | some blob => exact tuned_of_restored hbattery.1 hs
  exact ⟨hmachine.1, hmachine.2, by rw [haudio, Ring.capacity_empty]⟩

/-! ## Ticks -/

theorem machine_collect (s : Session) :
    s.collect.machine = (s.machine.perform .takeLines).perform .takeFrames := rfl

theorem machine_note (dots : Nat) (s : Session) :
    (s.note dots).machine = s.machine.perform .takeTouched := rfl

theorem audio_collect (s : Session) :
    s.collect.audio = s.audio.pushAll s.machine.frames.toList := (Array.foldl_toList ..).symm

theorem audio_note (dots : Nat) (s : Session) : (s.note dots).audio = s.audio := rfl

theorem settings_collect (s : Session) : s.collect.settings = s.settings := rfl

theorem settings_note (dots : Nat) (s : Session) : (s.note dots).settings = s.settings := rfl

/-- The machine at the end of a tick hands over its lines, its frames and its mark. -/
theorem machine_ticked (s : Session) (seconds : Float) : (s.ticked seconds).machine =
    (((s.advanced seconds).perform .takeLines).perform .takeFrames).perform .takeTouched := by
  rw [ticked, machine_note, machine_collect]

theorem audio_ticked (s : Session) (seconds : Float) :
    (s.ticked seconds).audio = s.audio.pushAll (s.advanced seconds).frames.toList := by
  rw [ticked, audio_note, audio_collect]

theorem settings_ticked (s : Session) (seconds : Float) :
    (s.ticked seconds).settings = s.settings := by
  rw [ticked, settings_note, settings_collect]

theorem evolves_advanced (s : Session) (seconds : Float) :
    Evolves s.machine (s.advanced seconds) :=
  (evolves_press s.buttons s.machine).trans (evolves_runFor _ _)

theorem Audible.ticked (h : s.Audible) (seconds : Float) : (s.ticked seconds).Audible where
  tuned := by
    rw [machine_ticked, settings_ticked]
    exact h.tuned.evolves ((((evolves_advanced s seconds).trans (evolves_perform _ _)).trans
      (evolves_perform _ _)).trans (evolves_perform _ _))
  collected := by
    rw [machine_ticked]
    rfl
  capacity := by
    rw [audio_ticked, Ring.capacity_pushAll, settings_ticked, h.capacity]

theorem Audible.perform (h : s.Audible) (c : Call) : (s.perform c).Audible := by
  cases c with
  | setButtons buttons => exact h.of_machine rfl rfl ⟨h.tuned, h.collected⟩
  | tick seconds =>
    simp only [Session.perform]
    cases hf : s.failure? with
    | some failure =>
      rw [tick_of_failure hf]
      exact h
    | none =>
      obtain ⟨failure?, ht⟩ := fst_tick hf seconds
      have hticked := h.ticked seconds
      rw [ht]
      generalize s.ticked seconds = s' at hticked ⊢
      exact hticked.of_machine rfl rfl ⟨hticked.tuned, hticked.collected⟩
  | takeLines => exact h.of_machine rfl rfl ⟨h.tuned, h.collected⟩
  | load blob =>
    simp only [Session.perform]
    cases hl : s.load blob with
    | error failure => exact h
    | ok s' =>
      obtain ⟨m, hm, rfl⟩ := eq_of_load hl
      exact h.of_machine rfl rfl (tuned_of_restored h.tuned hm)
  | loadBattery image now =>
    simp only [Session.perform]
    cases hl : s.loadBattery image now with
    | error failure => exact h
    | ok s' =>
      obtain ⟨m, hm, rfl⟩ := eq_of_loadBattery hl
      exact h.of_machine rfl rfl (tuned_of_withBattery ⟨h.tuned, h.collected⟩ hm)
  | batteryImage now =>
    have hs := h.mapSlot fun _ => (s.slot.batteryImage now).1
    exact hs.of_machine rfl rfl ⟨hs.tuned, hs.collected⟩
  | reset now =>
    simp only [Session.perform]
    cases hr : s.reset now with
    | error failure => exact h
    | ok s' =>
      obtain ⟨m, hnew, hr⟩ := bind_eq_ok.mp hr
      cases hr
      have hm := tuned_new hnew
      exact h.of_machine rfl rfl ⟨hm.1.withSlot _, hm.2⟩
  | setClock days hours minutes seconds now =>
    exact h.mapSlot fun _ => (s.slot.setClock days hours minutes seconds now).1

theorem Reached.audible (h : Reached s) : s.Audible := by
  induction h with
  | start c settings now battery? snapshot? h => exact audible_start h
  | call _ c ih => exact ih.perform c
  | listen _ buffer ih =>
    exact ⟨ih.tuned, ih.collected, (Ring.capacity_popInto _ buffer).trans ih.capacity⟩

/-- The frames that the machine makes in a tick. A session that was stopped makes none. -/
def emitted (s : Session) (seconds : Float) : Array Frame :=
  match s.failure? with
  | none => (s.advanced seconds).frames
  | some _ => #[]

theorem audio_tick (s : Session) (seconds : Float) :
    (s.tick seconds).1.audio = s.audio.pushAll (s.emitted seconds).toList := by
  rw [emitted]
  cases hf : s.failure? with
  | none =>
    obtain ⟨failure?, ht⟩ := fst_tick hf seconds
    have haudio := audio_ticked s seconds
    rw [ht]
    generalize s.ticked seconds = s' at haudio ⊢
    exact haudio
  | some failure =>
    rw [tick_of_failure hf]
    rfl

/-- What a tick begins with is less than a frame. -/
theorem Audible.sampled_lt (h : s.Audible) : s.machine.sampled < clockRate := by
  have hframes : s.machine.core.bus.sound.frames = #[] := h.collected
  rw [Machine.sampled, Sound.sampled, hframes]
  exact (Nat.zero_add _).symm ▸ h.tuned.sound.resampler.phase

theorem Audible.sampled_advanced_lt (h : s.Audible) (seconds : Float) :
    (s.advanced seconds).sampled < clockRate +
      (s.settings.budget seconds + maxOvershoot) * supportedRate s.settings.sampleRate := by
  have hpressed := h.tuned.evolves (evolves_press s.buttons s.machine)
  have hrun := sampled_runFor_le hpressed.bounded (s.settings.budget seconds)
  rw [hpressed.rate] at hrun
  exact Nat.lt_of_le_of_lt hrun (Nat.add_lt_add_right h.sampled_lt _)

/-- One and a half video frames, and the longest step, make less audio than two video frames,
from the lowest rate on. -/
theorem Audible.size_emitted_le (h : s.Audible)
    (hmin : Sound.minSampleRate ≤ s.settings.sampleRate)
    (hmax : s.settings.sampleRate ≤ Sound.maxSampleRate)
    (hbudget : s.settings.budget seconds ≤ 105336) :
    (s.emitted seconds).size ≤ s.audio.capacity := by
  rw [emitted]
  split
  · apply Sound.size_frames_le
    have hsampled := h.sampled_advanced_lt seconds
    have hdots : (s.settings.budget seconds + maxOvershoot) * s.settings.sampleRate ≤
        (105336 + 8192) * s.settings.sampleRate :=
      Nat.mul_le_mul_right _ (Nat.add_le_add_right hbudget _)
    have hcapacity : 2 * ((s.settings.sampleRate + 59) / 60) ≤ s.audio.capacity := by
      rw [h.capacity]
      exact Nat.le_trans s.settings.videoFrames_le_audioCapacity (Ring.le_slotsFor _)
    have hmin' : 8000 ≤ s.settings.sampleRate := hmin
    rw [supportedRate_of_bounds hmin hmax] at hsampled
    change (s.advanced seconds).sampled ≤ 4194304 * s.audio.capacity
    change (s.advanced seconds).sampled < 4194304 + _ at hsampled
    omega
  · exact Nat.zero_le _

/-- A host that takes all the audio before a tick of at most one and a half video frames gets
all that the tick makes, whether or not the machine fails in it: the frames fit the ring,
none of them is dropped, and they stand there in order. The capacity of the ring is computed
without overflow. -/
theorem tick_keeps_audio (h : Reached s) (hmin : 8000 ≤ s.settings.sampleRate)
    (hmax : s.settings.sampleRate ≤ 192000) (hlatency : s.settings.audioLatency < 2 ^ 32)
    (hempty : s.audio.isEmpty = true) (hbudget : s.settings.budget seconds ≤ 105336) :
    s.machine.overshoot ≤ 8192 ∧ s.machine.frames = #[] ∧
    s.settings.slotsInWords = some s.audio.capacity ∧
    (s.emitted seconds).size ≤ s.audio.capacity ∧
    (s.tick seconds).1.audio.dropped = s.audio.dropped ∧
    (s.tick seconds).1.audio.toList = (s.emitted seconds).toList := by
  have ha := h.audible
  have hsize : s.audio.size = 0 := beq_iff_eq.mp hempty
  have hlist : s.audio.toList = [] := by
    rw [Ring.toList, hsize]
    rfl
  have haligned : s.audio.Aligned := Ring.aligned_of_slotsFor ha.capacity
    (Nat.le_trans (Settings.audioCapacity_le hmax) (by decide))
  have hfit := ha.size_emitted_le hmin hmax hbudget
  have hroom : s.audio.size + (s.emitted seconds).toList.length ≤ s.audio.capacity := by
    rw [hsize, Nat.zero_add]
    exact hfit
  obtain ⟨hdropped, hkept⟩ := Ring.pushAll_keeps haligned hroom
  rw [hlist, List.nil_append] at hkept
  rw [audio_tick]
  refine ⟨ha.tuned.bounded.overshoot, ha.collected, ?_, hfit, hdropped, hkept⟩
  rw [Settings.slotsInWords_eq hmax hlatency, ha.capacity]

/-- A tick of a second, at a rate for which the ring is as small as it can be: it is cut to
one and a half video frames, and its audio is kept. -/
theorem tick_keeps_audio_second : ∃ s, start .saved { sampleRate := 61440, audioLatency := 0 } 0
      none none = .ok s ∧ s.audio.capacity = 2048 ∧ s.audio.isEmpty = true ∧
    s.settings.budget 1 ≤ 105336 ∧ (s.emitted 1).size ≤ 2048 ∧
    (s.tick 1).1.audio.toList = (s.emitted 1).toList ∧ (s.tick 1).1.audio.dropped = 0 := by
  obtain ⟨s, hstart⟩ : ∃ s, start .saved { sampleRate := 61440, audioLatency := 0 } 0
      none none = .ok s := ⟨_, rfl⟩
  obtain ⟨⟨_, hsettings, haudio⟩, _⟩ := machines_of_start hstart
  have hbudget : s.settings.budget 1 ≤ 105336 := by
    rw [hsettings]
    exact Nat.le_trans (Nat.min_le_right _ _) (by decide)
  have hempty : s.audio.isEmpty = true := by
    rw [haudio]
    rfl
  have hcapacity : s.audio.capacity = 2048 := by
    rw [haudio, Ring.capacity_empty]
    decide
  have hdropped : s.audio.dropped = 0 := by
    rw [haudio]
    rfl
  have hreached := Reached.start _ _ _ _ _ hstart
  obtain ⟨_, _, _, hfit, hkept, hlist⟩ := tick_keeps_audio hreached (by rw [hsettings]; decide)
    (by rw [hsettings]; decide) (by rw [hsettings]; decide) hempty hbudget
  exact ⟨s, hstart, hcapacity, hempty, hbudget, hcapacity ▸ hfit, hlist, hkept.trans hdropped⟩

end Session

end DotMatrix
