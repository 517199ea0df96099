import DotMatrix.Proofs.Machine.Reachable

/-!
# Saving and loading machines

A console that has just been switched on accepts every snapshot of a machine of its
origin, and becomes that machine but for the sound unit and what waits for the host. And
whatever snapshot a machine accepts, hand-made ones too, the snapshot of the result is one
that loading and saving leave as it is.
-/
namespace DotMatrix.Machine

open Snapshot

variable {o : Origin} {now : UInt64} {m m' fresh : Machine} {blob : Bytes}

/-- A snapshot that was loaded tells its payloads. -/
theorem payloads_eq_of_load {n : Machine} {payloads : List Bytes}
    (hram : m.core.bus.slot.ram.size < byteSpan 4) (hn : n.InRange)
    (hram' : n.core.bus.slot.ram.size < byteSpan 4)
    (hsizes : payloads.map List.length = m.sectionSizes)
    (he : n.snapshot = encode m.snapshotFlags payloads) : payloads = n.payloads := by
  have hf : ∀ p ∈ payloads, Fits p := by
    intro p hp
    apply sectionSizes_lt hram
    rw [← hsizes]
    exact List.mem_map_of_mem hp
  have hf' : ∀ p ∈ n.payloads, Fits p := by
    intro p hp
    obtain ⟨l, hl, rfl⟩ := List.mem_map.mp hp
    exact fits_write hn hram' l hl
  have hl : payloads.length = n.payloads.length := by
    have hlength := congrArg List.length hsizes
    rwa [List.length_map] at hlength
  rw [snapshot_eq] at he
  exact (encode_inj hl hf hf' he.symm).2

/-- No frame of audio has more dots than one can have, as long as the snapshots that are
loaded come from machines. -/
theorem Genuine.paced (h : Genuine o m) : m.Paced := by
  induction h with
  | powerOn now h => exact Origin.paced_powerOn h
  | perform a hm ih => exact (evolves_perform a _).paced hm.reachable.inRange ih
  | @load o source m n m' hm hn hl ih ihn =>
    have hr := hm.reachable
    have hr' := hn.reachable
    obtain ⟨payloads, he, hsizes, hloaded⟩ := of_load hr.inRange hl
    rw [payloads_eq_of_load hr.ramSize_lt hr'.inRange hr'.ramSize_lt hsizes he]
      at hloaded
    obtain ⟨s₀, hs⟩ := hloaded.sound
    have hd := Sound.Resampler.InRange.dots_le_of_paced hr'.inRange.bus.sound.resampler ihn
    have hload := (Sound.restores_layout hr'.inRange.bus.sound hd s₀).load
    have hsound := congrArg Prod.fst (hs.symm.trans hload)
    change m'.core.bus.sound.resampler.Paced
    rw [show m'.core.bus.sound = _ from hsound]
    exact ihn

theorem Genuine.dots_le (h : Genuine o m) :
    m.core.bus.sound.resampler.dots ≤ Sound.maxFrameDots :=
  h.reachable.inRange.bus.sound.resampler.dots_le_of_paced h.paced

/-- A machine accepts its own snapshot: a console of its origin that has just been switched
on becomes the machine but for what waits for the host and the timers of the sound unit, and
saves the same head and the same sections, that of the sound unit apart. -/
theorem load_own_snapshot (hm : Genuine o m) (hf : o.powerOn now = .ok fresh) :
    m.InRange ∧ fresh.load m.snapshot = .ok (m.restoredOn fresh) ∧
      (m.restoredOn fresh).snapshot.take 8 = m.snapshot.take 8 ∧
      ∀ i, i ≠ 5 → (m.restoredOn fresh).payloads[i]? = m.payloads[i]? := by
  have hr := hm.reachable
  have hh : fresh.hardware = m.hardware := (hr.hardware hf).symm
  refine ⟨hr.inRange, load_snapshot hr.inRange hm.dots_le hh hr.ramSize_lt, ?_, ?_⟩
  · rw [snapshot_eq, snapshot_eq, encode_eq, encode_eq, List.take_left' (length_head _),
      List.take_left' (length_head _)]
    rfl
  · intro i hi
    rw [payloads_restoredOn, List.getElem?_set_ne hi.symm]

/-- A console that ran for a frame, and one of the same origin that is switched on later. -/
theorem load_own_snapshot_blank :
    Genuine .blank ((Origin.blank.booted 0).perform (.runFor 70224)) ∧
      Origin.blank.powerOn 1 = .ok (Origin.blank.booted 1) ∧
      (Origin.blank.booted 1).load ((Origin.blank.booted 0).perform (.runFor 70224)).snapshot =
        .ok (((Origin.blank.booted 0).perform (.runFor 70224)).restoredOn
          (Origin.blank.booted 1)) := by
  have hm : Genuine .blank ((Origin.blank.booted 0).perform (.runFor 70224)) :=
    .perform _ (.powerOn 0 (Origin.powerOn_blank 0))
  exact ⟨hm, Origin.powerOn_blank 1, (load_own_snapshot hm (Origin.powerOn_blank 1)).2.1⟩

/-- Whatever a machine accepts has the size, the head and the section lengths of its own
snapshot. What it then saves is accepted by every machine of its origin, and saved again
byte for byte. -/
theorem load_normalizes (hm : Reachable o m) (hl : m.load blob = .ok m') :
    (blob.length = m.snapshot.length ∧ blob.take 8 = m.snapshot.take 8 ∧
      ∃ payloads, blob = encode m.snapshotFlags payloads ∧
        payloads.map lengthWord = m.payloads.map lengthWord) ∧
    ∀ n, Reachable o n → ∃ n', n.load m'.snapshot = .ok n' ∧ n'.snapshot = m'.snapshot := by
  obtain ⟨payloads, he, hsizes, hloaded⟩ := of_load hm.inRange hl
  have hlengths : payloads.map List.length = m.payloads.map List.length :=
    hsizes.trans (map_length_payloads hm.inRange).symm
  refine ⟨⟨?_, ?_, payloads, he, ?_⟩, ?_⟩
  · rw [he, snapshot_eq, length_encode, length_encode, hlengths]
  · rw [he, snapshot_eq, encode_eq, encode_eq, List.take_left' (length_head _),
      List.take_left' (length_head _)]
  · have hw := congrArg (List.map (littleEndian 4)) hlengths
    rwa [List.map_map, List.map_map] at hw
  · intro n hn
    have hm' : Reachable o m' := hm.load blob hl
    have hh : n.hardware = m'.hardware := hm'.hardware_eq hn
    refine ⟨m'.restoredOn n, ?_, snapshot_restoredOn hloaded.kept.inRange hloaded.normal n⟩
    exact load_snapshot hloaded.kept.inRange hloaded.normal.dots hh hm'.ramSize_lt

/-- The snapshot of a console that ran for a frame is accepted by the console as it was
switched on, and saved again by it. -/
theorem load_normalizes_blank :
    ∃ blob m', (Origin.blank.booted 0).load blob = .ok m' ∧
      blob.length = (Origin.blank.booted 0).snapshot.length ∧
      ∃ n', (Origin.blank.booted 0).load m'.snapshot = .ok n' ∧ n'.snapshot = m'.snapshot := by
  have hp := Origin.powerOn_blank 0
  have hm : Genuine .blank ((Origin.blank.booted 0).perform (.runFor 70224)) :=
    .perform _ (.powerOn 0 hp)
  have hl := load_snapshot hm.reachable.inRange hm.dots_le
    (hm.reachable.hardware hp).symm hm.reachable.ramSize_lt
  have hn := load_normalizes (.powerOn 0 hp) hl
  exact ⟨_, _, hl, hn.1.1, hn.2 _ (.powerOn 0 hp)⟩

end DotMatrix.Machine
