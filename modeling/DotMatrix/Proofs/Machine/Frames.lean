import DotMatrix.Proofs.Machine.Budget
import DotMatrix.Proofs.Machine.Marks
import DotMatrix.Proofs.Sound.Frames

/-!
# Frames of audio in a budget

A budget adds to what the sound unit has sampled by the rate of the host for each dot of
its steps, whatever the program writes and whether or not a step fails. The steps take no
more dots than the budget and the longest step.
-/
namespace DotMatrix

namespace Bus

variable {b b' : Bus}

theorem sound_advance (cycles : Nat) (b : Bus) :
    (b.advance cycles).1.sound = b.sound.advance (b.dotsIn cycles) :=
  congrArg Prod.snd (bystanders_advance cycles b)

/-! ## Writes -/

theorem sampled_of_eq (h : b'.bystanders = b.bystanders) : b'.sound.sampled = b.sound.sampled := by
  have hsound : b'.sound = b.sound := congrArg Prod.snd h
  rw [hsound]

theorem sampled_writeRegion (b : Bus) (region : Region) (address : UInt16) (value : UInt8) :
    (b.writeRegion region address value).sound.sampled = b.sound.sampled := by
  cases region with
  | sound => exact Sound.sampled_write b.sound address value
  | video => exact sampled_of_eq (bystanders_writeVideo b address value)
  | blockTransfer =>
    simp only [writeRegion]
    split
    · exact sampled_of_eq (bystanders_writeBlockTransfer b address value)
    · rfl
  | speed => simp only [writeRegion]; split <;> rfl
  | bootSwitch => simp only [writeRegion]; split <;> rfl
  | workBank => simp only [writeRegion]; split <;> rfl
  | _ => rfl

theorem sampled_write (b : Bus) (address : UInt16) (value : UInt8) :
    (b.write address value).sound.sampled = b.sound.sampled := by
  unfold write
  dsimp only
  split
  · rfl
  split
  · exact sampled_writeRegion b _ address value
  · rfl

/-- No write makes a frame or moves the phase. -/
theorem Effect.sampled (h : Effect b b') : b'.sound.sampled = b.sound.sampled := by
  induction h with
  | none b => rfl
  | write b address value => exact sampled_write b address value
  | writes b address next value other _ =>
    exact (sampled_write _ next other).trans (sampled_write b address value)
  | serve b b' kept _ ih => exact ih
  | resetDivider b => rfl
  | switchSpeed b => rfl

end Bus

namespace Machine

variable {m m' m₁ : Machine} {dots elapsed : Nat}

/-- What the sound unit has made of the dots so far. -/
def sampled (m : Machine) : Nat := m.core.bus.sound.sampled

def sampleRate (m : Machine) : Nat := m.core.bus.sound.sampleRate

@[simp] theorem sampled_ahead (n : Nat) (m : Machine) : (m.ahead n).sampled = m.sampled := rfl

theorem sampleRate_of_hardware (h : m'.hardware = m.hardware) : m'.sampleRate = m.sampleRate :=
  congrArg (fun h : Bus.Hardware => h.sound.2) h

/-! ## Steps -/

theorem sampled_step (h : m.step = (m', .ok elapsed)) :
    m'.sampled = m.sampled + elapsed * m.sampleRate := by
  have hadvance (cycles : Nat) (b : Bus) : (b.advance cycles).1.sound.sampled =
      b.sound.sampled + b.dotsIn cycles * b.sound.sampleRate := by
    rw [Bus.sound_advance, Sound.sampled_advance]
  rw [step] at h
  split at h
  · have hstep := Core.steps_step m.core
    split at h
    · cases h
    · rename_i core cycles hok
      rw [hok] at hstep
      cases h
      have hrate : core.bus.sound.sampleRate = m.sampleRate :=
        congrArg (fun h : Bus.Hardware => h.sound.2) hstep.effect.evolves.hardware
      refine (hadvance cycles core.bus).trans ?_
      rw [hstep.effect.sampled, hrate]
      rfl
  · cases h
    exact hadvance m.bus.stall { m.bus with stall := 0 }

/-- A step that fails takes no time. -/
theorem sampled_step_error {failure : Failure} (h : m.step = (m', .error failure)) :
    m'.sampled = m.sampled := by
  rw [step] at h
  split at h
  · split at h
    · rename_i core _ hf
      cases h
      exact congrArg (fun b : Bus => b.sound.sampled) (Core.bus_of_step_error hf)
    · cases h
  · cases h

/-- Every step counts as much as its dots, and the longest of them bounds each. -/
theorem Steps.sampled {es : List Nat} (h : Steps m es m') :
    m'.sampled = m.sampled + es.sum * m.sampleRate := by
  induction h with
  | done m => rw [List.sum_nil, Nat.zero_mul, Nat.add_zero]
  | @step m m₁ m' elapsed rest hs _ ih =>
    have hstep := evolves_step m
    rw [hs] at hstep
    rw [ih, sampleRate_of_hardware hstep.hardware, sampled_step hs, List.sum_cons, Nat.add_mul,
      Nat.add_assoc]

theorem Steps.le_maxOvershoot {es : List Nat} (h : Steps m es m') (hm : m.Bounded) :
    ∀ e ∈ es, e ≤ maxOvershoot := by
  induction h with
  | done m => exact nofun
  | @step m m₁ m' elapsed rest hs _ ih =>
    have hstep := evolves_step m
    rw [hs] at hstep
    exact List.forall_mem_cons.mpr ⟨hm.elapsed_le hs, ih (hstep.bounded hm)⟩

/-! ## Budgets -/

/-- The last step of a budget begins within it. -/
theorem Spent.sum_le {before : Nat} {es : List Nat} {r : Machine × Except Failure Unit}
    (h : Spent m dots before es m₁ r) (hm : m.Bounded) : es.sum ≤ dots + maxOvershoot := by
  rcases List.eq_nil_or_concat es with rfl | ⟨front, last, rfl⟩
  · exact Nat.zero_le _
  · rw [List.concat_eq_append] at h ⊢
    have hlast := h.steps.le_maxOvershoot hm last (by simp)
    have hbegins := h.begins front.length (by simp)
    rw [List.take_left] at hbegins
    rw [List.sum_append, List.sum_singleton]
    omega

theorem Spent.sampled {before : Nat} {es : List Nat} {r : Machine × Except Failure Unit}
    (h : Spent m dots before es m₁ r) : r.1.sampled = m.sampled + es.sum * m.sampleRate := by
  rw [← h.steps.sampled]
  rcases h.ends with ⟨_, hr⟩ | ⟨m₂, failure, _, hs, hr⟩
  · rw [hr, sampled_ahead]
  · rw [hr, sampled_ahead, sampled_step_error hs]

/-- A budget is sampled at the rate of the host, and with it no more than the longest step. -/
theorem sampled_runFor_le (hm : m.Bounded) (dots : Nat) :
    (m.runFor dots).1.sampled ≤ m.sampled + (dots + maxOvershoot) * m.sampleRate := by
  obtain ⟨es, m₁, hspent⟩ := spent_runFor dots m
  rw [hspent.sampled]
  exact Nat.add_le_add_left (Nat.mul_le_mul_right _ (hspent.sum_le hm)) _

end Machine

end DotMatrix
