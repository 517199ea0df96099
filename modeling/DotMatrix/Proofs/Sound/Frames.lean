import DotMatrix.Proofs.Sound.Snapshot

/-!
# The pace of the frames

Each dot moves the phase of the resampler by the rate of the host, and a frame takes
`clockRate` off it. So the frames that wait and the phase tell together how many dots have
passed, however these were divided: `sampled` grows by the rate with every dot, and by
nothing else.
-/
namespace DotMatrix

open Snapshot Snapshot.Layout

/-- What ends with an adjustment is left as the adjustment makes it. -/
theorem Snapshot.Layout.eq_of_read_adjust {σ : Type} {f : σ → σ} {ls : List (Layout σ)}
    (hl : ls.getLast? = some (adjust f)) {bytes rest : Bytes} {s s' : σ}
    (h : (fields ls).read bytes s = (s', .ok rest)) : ∃ s'', s' = f s'' := by
  induction ls generalizing bytes s with
  | nil => cases hl
  | cons l ls ih =>
    rw [fields_cons, append] at h
    dsimp only at h
    split at h
    · rename_i s₁ rest₁ hr
      cases ls with
      | nil =>
        cases hl
        cases hr
        cases h
        exact ⟨s, rfl⟩
      | cons l' ls => exact ih hl h
    · cases h

namespace Sound

variable {s : Sound}

/-! ## The resampler -/

/-- A frame takes `clockRate` off the phase. -/
theorem Resampler.phase_advance (r : Resampler) (dots : Nat) (levels : Int × Int) :
    clockRate * (r.advance dots levels).2.toList.length + (r.advance dots levels).1.phase =
      r.phase + dots * r.rate := by
  rw [Resampler.advance]
  dsimp only
  split
  · rename_i hf
    rw [fst_emit, Option.toList_some, List.length_singleton, Nat.mul_one]
    exact Nat.add_sub_cancel' hf
  · exact Nat.zero_add _

/-! ## The unit -/

/-- What the unit has made of the dots so far, in parts of a frame: `clockRate` parts for
each frame that waits, and the phase for the one that has begun. -/
def sampled (s : Sound) : Nat := clockRate * s.frames.size + s.resampler.phase

theorem frames_clockSequencer (s : Sound) : s.clockSequencer.frames = s.frames :=
  clockSequencer_unchanged (fun _ _ _ => rfl) (fun _ => rfl) (fun _ => rfl) (fun _ => rfl) s

theorem frames_advanceChannels (dots : Nat) (s : Sound) :
    (s.advanceChannels dots).frames = s.frames := by
  rw [advanceChannels]
  simp only
  split
  · exact frames_clockSequencer _
  · rfl

/-- The frame of the resampler, if there is one, waits behind the others. -/
theorem frames_advanceWithin (dots : Nat) (s : Sound) :
    (s.advanceWithin dots).frames =
      s.frames ++ (s.resampler.advance dots s.mix).2.toList.toArray := by
  have hr : (if s.powered then s.advanceChannels dots else s).resampler = s.resampler := by
    split
    · exact resampler_advanceChannels dots s
    · rfl
  have hf : (if s.powered then s.advanceChannels dots else s).frames = s.frames := by
    split
    · exact frames_advanceChannels dots s
    · rfl
  rw [advanceWithin]
  dsimp only
  rw [hr]
  cases (s.resampler.advance dots s.mix).2 with
  | none => exact hf.trans Array.append_empty.symm
  | some frame => exact (congrArg (·.push frame) hf).trans Array.push_eq_append

theorem size_frames_advanceWithin (dots : Nat) (s : Sound) :
    (s.advanceWithin dots).frames.size =
      s.frames.size + (s.resampler.advance dots s.mix).2.toList.length := by
  rw [frames_advanceWithin]
  exact Array.size_append

/-- A run only adds frames to those that wait. -/
theorem frames_advance (dots : Nat) (s : Sound) :
    ∃ made, (s.advance dots).frames = s.frames ++ made := by
  induction dots, s using Sound.advance.induct with
  | case1 s =>
    rw [Sound.advance, if_pos rfl]
    exact ⟨#[], Array.append_empty.symm⟩
  | case2 dots s hd run ih =>
    obtain ⟨made, hmade⟩ := ih
    rw [Sound.advance, if_neg hd]
    exact ⟨_, by rw [hmade, frames_advanceWithin, Array.append_assoc]⟩

theorem sampled_advanceWithin (dots : Nat) (s : Sound) :
    (s.advanceWithin dots).sampled = s.sampled + dots * s.sampleRate := by
  have hphase := s.resampler.phase_advance dots s.mix
  rw [sampled, size_frames_advanceWithin, resampler_advanceWithin, Nat.mul_add, Nat.add_assoc,
    hphase, ← Nat.add_assoc]
  rfl

/-- Every dot counts as much as the rate says. -/
theorem sampled_advance (dots : Nat) (s : Sound) :
    (s.advance dots).sampled = s.sampled + dots * s.sampleRate := by
  induction dots, s using Sound.advance.induct with
  | case1 s => rw [Sound.advance, if_pos rfl, Nat.zero_mul, Nat.add_zero]
  | case2 dots s hd run ih =>
    have hrate : (s.advanceWithin run).sampleRate = s.sampleRate := by
      rw [sampleRate, resampler_advanceWithin, Resampler.rate_advance, sampleRate]
    have hdots : run + (dots - run) = dots := Nat.add_sub_cancel' (Nat.min_le_left _ _)
    rw [Sound.advance, if_neg hd]
    rw [ih, hrate, sampled_advanceWithin, Nat.add_assoc, ← Nat.add_mul, hdots]

@[simp] theorem frames_write (s : Sound) (address : UInt16) (value : UInt8) :
    (s.write address value).frames = s.frames := by
  rw [Sound.write]
  split
  · rfl
  split
  · rw [writePower]
    split <;> rfl
  split
  · rfl
  split
  · rw [writePowered]
    split <;> rfl
  · rw [writeUnpowered]
    split <;> rfl

theorem sampled_write (s : Sound) (address : UInt16) (value : UInt8) :
    (s.write address value).sampled = s.sampled := by
  rw [sampled, frames_write, resampler_write, sampled]

theorem frames_boot (s : Sound) : s.boot.frames = s.frames :=
  foldl_write (P := fun t => t.frames = s.frames)
    (fun t address value h => (frames_write t address value).trans h) bootWrites rfl

/-- No frame waits in a unit that comes from a snapshot. -/
theorem frames_of_load {payload : Bytes} {s₀ : Sound} (h : layout.load payload s₀ = (s, .ok ())) :
    s.frames = #[] := by
  rw [Layout.load] at h
  split at h
  · rename_i s₁ rest hr
    obtain ⟨s₂, hs⟩ := eq_of_read_adjust rfl hr
    have hloaded : s₁ = s := congrArg Prod.fst h
    rw [← hloaded, hs]
  · cases h

theorem size_frames_le {n : Nat} (hn : s.sampled ≤ clockRate * n) : s.frames.size ≤ n :=
  Nat.le_of_mul_le_mul_left (Nat.le_trans (Nat.le_add_right _ _) hn) (Nat.zero_lt_succ _)

end Sound

end DotMatrix
