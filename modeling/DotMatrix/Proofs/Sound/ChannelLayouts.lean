import DotMatrix.Proofs.Snapshot.Layout
import DotMatrix.Proofs.Sound.Channels

/-!
# The channels in a snapshot

The bytes of a channel in range tell all of it. Reading them back brings the frequency
timer down to what the current frequency can have started, and changes nothing else.
-/
namespace DotMatrix.Sound

open Snapshot Snapshot.Layout

/-! ## Gates and envelopes -/

namespace Gate

variable {g g' : Gate} {full : Nat}

@[simp] theorem length_write_layout (full : Nat) (g : Gate) :
    ((layout full).write g).length = 5 := by
  simp [layout]

theorem restores_layout (h : g.length ≤ full) (hf : full < byteSpan 2) (g₀ : Gate) :
    (layout full).Restores g g₀ g := by
  apply Restores.congr
  · exact restores_cons restores_flag <| restores_cons restores_flag <|
      restores_cons (restores_number (Nat.lt_of_le_of_lt h hf)) <|
      restores_cons restores_flag restores_nil
  · rw [Nat.min_eq_left h]

theorem reads_layout (full : Nat) (g : Gate) : (layout full).Reads 5 g fun g' => g'.length ≤ full := by
  apply reads_cons_flag; intro _
  apply reads_cons_flag; intro _
  apply reads_cons_number; intro n _
  apply reads_cons_flag; intro _
  exact reads_nil (Nat.min_le_right n full)

theorem write_inj (h : g.length ≤ full) (h' : g'.length ≤ full) (hf : full < byteSpan 2)
    (hw : (layout full).write g = (layout full).write g') : g = g' :=
  (restores_layout h hf g).eq_of_write (restores_layout h' hf g) hw

end Gate

namespace Envelope

variable {e e' : Envelope}

@[simp] theorem length_write_layout (e : Envelope) : (layout.write e).length = 5 := by
  simp [layout]

theorem restores_layout (h : e.InRange) (e₀ : Envelope) : layout.Restores e e₀ e := by
  apply Restores.congr
  · exact restores_cons (restores_number (lt_byteSpan h.initial)) <|
      restores_cons (restores_number (lt_byteSpan h.period)) <|
      restores_cons restores_flag <|
      restores_cons (restores_number (lt_byteSpan h.volume)) <|
      restores_cons (restores_number (lt_byteSpan h.timer)) restores_nil
  · rw [Nat.mod_eq_of_lt h.initial, Nat.mod_eq_of_lt h.period, Nat.mod_eq_of_lt h.volume,
      Nat.mod_eq_of_lt h.timer]

theorem reads_layout (e : Envelope) : layout.Reads 5 e InRange := by
  apply reads_cons_number; intro _ _
  apply reads_cons_number; intro _ _
  apply reads_cons_flag; intro _
  apply reads_cons_number; intro _ _
  apply reads_cons_number; intro _ _
  exact reads_nil ⟨Nat.mod_lt _ (by decide), Nat.mod_lt _ (by decide), Nat.mod_lt _ (by decide),
    Nat.mod_lt _ (by decide)⟩

theorem write_inj (h : e.InRange) (h' : e'.InRange) (hw : layout.write e = layout.write e') :
    e = e' :=
  (restores_layout h e).eq_of_write (restores_layout h' e) hw

end Envelope

/-! ## Square channels -/

namespace Square

variable {s s' : Square}

/-- The timer is one that the current frequency can have started. -/
def TimerInRange (s : Square) : Prop := s.timer ≤ s.period

def clampTimer (s : Square) : Square := { s with timer := min s.timer s.period }

theorem clampTimer_of_inRange (h : s.TimerInRange) : s.clampTimer = s := by
  simp only [clampTimer, Nat.min_eq_left h]

theorem timerInRange_clampTimer (s : Square) : s.clampTimer.TimerInRange := Nat.min_le_right _ _

theorem InRange.clampTimer (h : s.InRange) : s.clampTimer.InRange :=
  { h with timer := Nat.le_trans (Nat.min_le_left _ _) h.timer }

@[simp] theorem length_write_layout (s : Square) : (layout.write s).length = 18 := by
  simp [layout]

theorem restores_layout (h : s.InRange) (s₀ : Square) : layout.Restores s s₀ s.clampTimer := by
  have hd : s.duty < byteSpan 1 := lt_byteSpan h.duty
  have hp : s.position < byteSpan 1 := lt_byteSpan h.position
  have hf : s.frequency < byteSpan 2 := lt_byteSpan h.frequency
  have ht : s.timer < byteSpan 4 := lt_byteSpan_of_le h.timer
  apply Restores.congr
  · exact restores_cons (restores_part
        (Gate.restores_layout h.length (by decide) s₀.gate)) <|
      restores_cons (restores_number hd) <| restores_cons (restores_number hp) <|
      restores_cons (restores_number hf) <| restores_cons (restores_number ht) <|
      restores_cons (restores_part (Envelope.restores_layout h.envelope s₀.envelope))
        restores_nil
  · simp only [Nat.mod_eq_of_lt h.duty, Nat.mod_eq_of_lt h.position, Nat.mod_eq_of_lt h.frequency,
      clampTimer, period]

theorem reads_layout (s : Square) : layout.Reads 18 s fun s' => s'.InRange ∧ s'.TimerInRange := by
  apply reads_cons_part (Gate.reads_layout maxLength s.gate); intro g hg
  apply reads_cons_number; intro _ _
  apply reads_cons_number; intro _ _
  apply reads_cons_number; intro _ _
  apply reads_cons_number; intro _ _
  apply reads_cons_part (Envelope.reads_layout _); intro e he
  refine reads_nil ⟨⟨hg, Nat.mod_lt _ (by decide), Nat.mod_lt _ (by decide),
    Nat.mod_lt _ (by decide), ?_, he⟩, Nat.min_le_right _ _⟩
  exact Nat.le_trans (Nat.min_le_right _ _) (period_le _)

theorem write_inj (h : s.InRange) (h' : s'.InRange) (hw : layout.write s = layout.write s') :
    s = s' := by
  rcases eq_of_write_part (by simp) hw with ⟨hg, hw⟩
  rcases eq_of_write_number hw (lt_byteSpan h.duty) (lt_byteSpan h'.duty) with ⟨hd, hw⟩
  obtain ⟨hp, hw⟩ :=
    eq_of_write_number hw (lt_byteSpan h.position) (lt_byteSpan h'.position)
  rcases eq_of_write_number hw (lt_byteSpan h.frequency) (lt_byteSpan h'.frequency) with ⟨hf, hw⟩
  obtain ⟨ht, hw⟩ := eq_of_write_number hw (lt_byteSpan_of_le h.timer) (lt_byteSpan_of_le h'.timer)
  rcases eq_of_write_part (by simp) hw with ⟨he, _⟩
  have hg := Gate.write_inj h.length h'.length (by decide) hg
  have he := Envelope.write_inj h.envelope h'.envelope he
  rcases s with ⟨gate, duty, position, frequency, timer, envelope⟩
  rcases s' with ⟨gate', duty', position', frequency', timer', envelope'⟩
  simp only at hg hd hp hf ht he
  rw [hg, hd, hp, hf, ht, he]

end Square

/-! ## The first channel -/

namespace Sweep

variable {w w' : Sweep}

@[simp] theorem length_write_layout (w : Sweep) : (layout.write w).length = 8 := by
  simp [layout]

theorem restores_layout (h : w.InRange) (w₀ : Sweep) : layout.Restores w w₀ w := by
  have hs : w.shadow < byteSpan 2 := lt_byteSpan h.shadow
  apply Restores.congr
  · exact restores_cons (restores_number (lt_byteSpan h.period)) <|
      restores_cons restores_flag <| restores_cons (restores_number (lt_byteSpan h.shift)) <|
      restores_cons (restores_number (lt_byteSpan h.timer)) <|
      restores_cons (restores_number hs) <| restores_cons restores_flag <|
      restores_cons restores_flag restores_nil
  · rw [Nat.mod_eq_of_lt h.period, Nat.mod_eq_of_lt h.shift, Nat.mod_eq_of_lt h.timer,
      Nat.mod_eq_of_lt h.shadow]

theorem reads_layout (w : Sweep) : layout.Reads 8 w InRange := by
  apply reads_cons_number; intro _ _
  apply reads_cons_flag; intro _
  apply reads_cons_number; intro _ _
  apply reads_cons_number; intro _ _
  apply reads_cons_number; intro _ _
  apply reads_cons_flag; intro _
  apply reads_cons_flag; intro _
  exact reads_nil ⟨Nat.mod_lt _ (by decide), Nat.mod_lt _ (by decide), Nat.mod_lt _ (by decide),
    Nat.mod_lt _ (by decide)⟩

theorem write_inj (h : w.InRange) (h' : w'.InRange) (hw : layout.write w = layout.write w') :
    w = w' :=
  (restores_layout h w).eq_of_write (restores_layout h' w) hw

end Sweep

namespace Swept

variable {c c' : Swept}

@[simp] theorem length_write_layout (c : Swept) : (layout.write c).length = 26 := by
  simp [layout]

theorem restores_layout (h : c.InRange) (c₀ : Swept) :
    layout.Restores c c₀ (c.mapSquare Square.clampTimer) :=
  restores_cons (restores_part (Square.restores_layout h.square c₀.square)) <|
    restores_cons (restores_part (Sweep.restores_layout h.sweep c₀.sweep)) restores_nil

theorem reads_layout (c : Swept) :
    layout.Reads 26 c fun c' => c'.InRange ∧ c'.square.TimerInRange := by
  apply reads_cons_part (Square.reads_layout _); intro s hs
  apply reads_cons_part (Sweep.reads_layout _); intro w hw
  exact reads_nil ⟨⟨hs.1, hw⟩, hs.2⟩

theorem write_inj (h : c.InRange) (h' : c'.InRange) (hw : layout.write c = layout.write c') :
    c = c' := by
  rcases eq_of_write_part (by simp) hw with ⟨hs, hw⟩
  rcases eq_of_write_part (by simp) hw with ⟨hw, _⟩
  have hs := Square.write_inj h.square h'.square hs
  have hw := Sweep.write_inj h.sweep h'.sweep hw
  rcases c with ⟨square, sweep⟩
  rcases c' with ⟨square', sweep'⟩
  simp only at hs hw
  rw [hs, hw]

end Swept

/-! ## The wave channel -/

namespace Wave

variable {w w' : Wave}

def TimerInRange (w : Wave) : Prop := w.timer ≤ w.period + triggerDelay

def clampTimer (w : Wave) : Wave := { w with timer := min w.timer (w.period + triggerDelay) }

theorem clampTimer_of_inRange (h : w.TimerInRange) : w.clampTimer = w := by
  simp only [clampTimer, Nat.min_eq_left h]

theorem timerInRange_clampTimer (w : Wave) : w.clampTimer.TimerInRange := Nat.min_le_right _ _

theorem InRange.clampTimer (h : w.InRange) : w.clampTimer.InRange :=
  { h with timer := Nat.le_trans (Nat.min_le_left _ _) h.timer }

@[simp] theorem length_write_layout (w : Wave) : (layout.write w).length = 14 := by
  simp [layout]

theorem restores_layout (h : w.InRange) (w₀ : Wave) : layout.Restores w w₀ w.clampTimer := by
  have hv : w.volume < byteSpan 1 := lt_byteSpan h.volume
  have hp : w.position < byteSpan 1 := lt_byteSpan h.position
  have hb : w.buffer < byteSpan 1 := lt_byteSpan h.buffer
  have hf : w.frequency < byteSpan 2 := lt_byteSpan h.frequency
  have ht : w.timer < byteSpan 4 := lt_byteSpan_of_le h.timer
  apply Restores.congr
  · exact restores_cons (restores_part
        (Gate.restores_layout h.length (by decide) w₀.gate)) <|
      restores_cons (restores_number hv) <| restores_cons (restores_number hp) <|
      restores_cons (restores_number hb) <| restores_cons (restores_number hf) <|
      restores_cons (restores_number ht) restores_nil
  · simp only [Nat.mod_eq_of_lt h.volume, Nat.mod_eq_of_lt h.position, Nat.mod_eq_of_lt h.buffer,
      Nat.mod_eq_of_lt h.frequency, clampTimer, period]

theorem reads_layout (w : Wave) : layout.Reads 14 w fun w' => w'.InRange ∧ w'.TimerInRange := by
  apply reads_cons_part (Gate.reads_layout maxLength w.gate); intro g hg
  apply reads_cons_number; intro _ _
  apply reads_cons_number; intro _ _
  apply reads_cons_number; intro _ _
  apply reads_cons_number; intro _ _
  apply reads_cons_number; intro _ _
  refine reads_nil ⟨⟨hg, Nat.mod_lt _ (by decide), Nat.mod_lt _ (by decide),
    Nat.mod_lt _ (by decide), Nat.mod_lt _ (by decide), ?_⟩, Nat.min_le_right _ _⟩
  exact Nat.le_trans (Nat.min_le_right _ _) (Nat.add_le_add_right (period_le _) _)

theorem write_inj (h : w.InRange) (h' : w'.InRange) (hw : layout.write w = layout.write w') :
    w = w' := by
  rcases eq_of_write_part (by simp) hw with ⟨hg, hw⟩
  rcases eq_of_write_number hw (lt_byteSpan h.volume) (lt_byteSpan h'.volume) with ⟨hv, hw⟩
  obtain ⟨hp, hw⟩ :=
    eq_of_write_number hw (lt_byteSpan h.position) (lt_byteSpan h'.position)
  rcases eq_of_write_number hw (lt_byteSpan h.buffer) (lt_byteSpan h'.buffer) with ⟨hb, hw⟩
  rcases eq_of_write_number hw (lt_byteSpan h.frequency) (lt_byteSpan h'.frequency) with ⟨hf, hw⟩
  rcases eq_of_write_number hw (lt_byteSpan_of_le h.timer) (lt_byteSpan_of_le h'.timer) with ⟨ht, _⟩
  have hg := Gate.write_inj h.length h'.length (by decide) hg
  rcases w with ⟨gate, volume, position, buffer, frequency, timer⟩
  rcases w' with ⟨gate', volume', position', buffer', frequency', timer'⟩
  simp only at hg hv hp hb hf ht
  rw [hg, hv, hp, hb, hf, ht]

end Wave

/-! ## The noise channel -/

namespace Noise

variable {n n' : Noise}

def TimerInRange (n : Noise) : Prop := n.timer ≤ n.period

def clampTimer (n : Noise) : Noise := { n with timer := min n.timer n.period }

theorem clampTimer_of_inRange (h : n.TimerInRange) : n.clampTimer = n := by
  simp only [clampTimer, Nat.min_eq_left h]

theorem timerInRange_clampTimer (n : Noise) : n.clampTimer.TimerInRange := Nat.min_le_right _ _

theorem InRange.clampTimer (h : n.InRange) : n.clampTimer.InRange :=
  { h with timer := Nat.le_trans (Nat.min_le_left _ _) h.timer }

@[simp] theorem length_write_layout (n : Noise) : (layout.write n).length = 19 := by
  simp [layout]

theorem restores_layout (h : n.InRange) (n₀ : Noise) : layout.Restores n n₀ n.clampTimer := by
  have hs : n.clockShift < byteSpan 1 := lt_byteSpan h.clockShift
  have hd : n.divisor < byteSpan 1 := lt_byteSpan h.divisor
  have hr : n.register.toNat < byteSpan 2 := n.register.toNat_lt
  have ht : n.timer < byteSpan 4 := lt_byteSpan_of_le h.timer
  apply Restores.congr
  · exact restores_cons (restores_part
        (Gate.restores_layout h.length (by decide) n₀.gate)) <|
      restores_cons (restores_part (Envelope.restores_layout h.envelope n₀.envelope)) <|
      restores_cons (restores_number hs) <| restores_cons (restores_number hd) <|
      restores_cons restores_flag <| restores_cons (restores_number hr) <|
      restores_cons (restores_number ht) restores_nil
  · simp only [Nat.mod_eq_of_lt h.clockShift, Nat.mod_eq_of_lt h.divisor,
      Nat.mod_eq_of_lt h.register, UInt16.ofNat_toNat, clampTimer, period]

theorem reads_layout (n : Noise) : layout.Reads 19 n fun n' => n'.InRange ∧ n'.TimerInRange := by
  apply reads_cons_part (Gate.reads_layout maxLength n.gate); intro g hg
  apply reads_cons_part (Envelope.reads_layout _); intro e he
  apply reads_cons_number; intro shift _
  apply reads_cons_number; intro divisor _
  apply reads_cons_flag; intro _
  apply reads_cons_number; intro register _
  apply reads_cons_number; intro _ _
  have hr : (UInt16.ofNat (register % 0x8000)).toNat < 0x8000 := by
    rw [UInt16.toNat_ofNat']
    omega
  have hi : InRange { n with
      gate := g, envelope := e, clockShift := shift % 16, divisor := divisor % 8
      register := UInt16.ofNat (register % 0x8000), timer := 0 } :=
    ⟨hg, he, Nat.mod_lt _ (by decide), Nat.mod_lt _ (by decide), hr, Nat.zero_le _⟩
  refine reads_nil ⟨{ hi with timer := ?_ }, Nat.min_le_right _ _⟩
  exact Nat.le_trans (Nat.min_le_right _ _) hi.period_le

theorem write_inj (h : n.InRange) (h' : n'.InRange) (hw : layout.write n = layout.write n') :
    n = n' := by
  rcases eq_of_write_part (by simp) hw with ⟨hg, hw⟩
  rcases eq_of_write_part (by simp) hw with ⟨he, hw⟩
  obtain ⟨hs, hw⟩ :=
    eq_of_write_number hw (lt_byteSpan h.clockShift) (lt_byteSpan h'.clockShift)
  rcases eq_of_write_number hw (lt_byteSpan h.divisor) (lt_byteSpan h'.divisor) with ⟨hd, hw⟩
  rcases eq_of_write_flag hw with ⟨hb, hw⟩
  rcases eq_of_write_number hw n.register.toNat_lt n'.register.toNat_lt with ⟨hr, hw⟩
  rcases eq_of_write_number hw (lt_byteSpan_of_le h.timer) (lt_byteSpan_of_le h'.timer) with ⟨ht, _⟩
  have hg := Gate.write_inj h.length h'.length (by decide) hg
  have he := Envelope.write_inj h.envelope h'.envelope he
  have hr := UInt16.toNat_inj.mp hr
  rcases n with ⟨gate, envelope, shift, divisor, short, register, timer⟩
  rcases n' with ⟨gate', envelope', shift', divisor', short', register', timer'⟩
  simp only at hg he hs hd hb hr ht
  rw [hg, he, hs, hd, hb, hr, ht]

end Noise

end DotMatrix.Sound
