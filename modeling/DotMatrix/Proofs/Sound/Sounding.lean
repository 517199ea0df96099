import DotMatrix.Proofs.Sound.RoundTrip

/-!
# Channels that are on

A channel is put on by a trigger alone, with its converter on, and it falls silent when its
converter goes off or the power does. So the bits of the power switch stand for channels
that can be heard.
-/
namespace DotMatrix.Sound

/-! ## Gates -/

namespace Gate

variable {g g' : Gate} {full : Nat} {powered : Bool}

/-- A channel that is on has its converter on, and power. -/
def Fed (g : Gate) (powered : Bool) : Prop := g.on = true → g.dac = true ∧ powered = true

/-- The gate may have closed, with the converter as before. -/
structure Closes (g g' : Gate) : Prop where
  on : g'.on = true → g.on = true
  dac : g'.dac = g.dac

theorem Closes.refl (g : Gate) : g.Closes g := ⟨id, rfl⟩

theorem Closes.trans {g'' : Gate} (h : g.Closes g') (h' : g'.Closes g'') : g.Closes g'' :=
  ⟨fun hon => h.on (h'.on hon), h'.dac.trans h.dac⟩

theorem Fed.closes (h : g.Fed powered) (hc : g.Closes g') : g'.Fed powered := by
  intro hon
  rw [hc.dac]
  exact h (hc.on hon)

theorem closes_silence (g : Gate) (sounds : Bool) : g.Closes { g with on := g.on && sounds } :=
  ⟨fun h => (Bool.and_eq_true_iff.mp h).1, rfl⟩

theorem closes_clock (g : Gate) : g.Closes g.clock := by
  rw [clock]
  split
  · exact ⟨fun h => (Bool.and_eq_true_iff.mp h).1, rfl⟩
  · exact .refl g

theorem closes_control (g : Gate) (full : Nat) (late : Bool) (value : UInt8) :
    g.Closes (g.control full late value) := by
  have hreload (g' : Gate) (h : g.Closes g') (length : Nat) : g.Closes
      (if hasBit value 0x80 && g'.length == 0 then { g' with length } else g') := by
    split
    · exact ⟨h.on, h.dac⟩
    · exact h
  have henable : g.Closes { g with lengthEnabled := hasBit value 0x40 } := ⟨id, rfl⟩
  refine hreload _ ?_ _
  split
  · exact henable.trans (closes_clock _)
  · exact henable

theorem fed_setDac (g : Gate) (dac : Bool) : (g.setDac dac).Fed true :=
  fun hon => ⟨(Bool.and_eq_true_iff.mp hon).2, rfl⟩

theorem fed_trigger (g : Gate) : g.trigger.Fed true := fun hon => ⟨hon, rfl⟩

theorem fed_of_off (h : g.on = false) : g.Fed powered := fun hon => nomatch h.symm.trans hon

end Gate

open Gate (Fed Closes)

section Sweep

variable {c : Swept} {g : Gate}

theorem Swept.closes_check (h : g.Closes c.square.gate) : g.Closes c.check.square.gate :=
  h.trans (Gate.closes_silence _ _)

theorem Swept.closes_step (h : g.Closes c.square.gate) : g.Closes c.step.square.gate := by
  rw [Swept.step]
  dsimp only
  split
  · exact Swept.closes_check (closes_check h)
  · exact closes_check h

theorem Swept.closes_clockSweep (h : g.Closes c.square.gate) :
    g.Closes c.clockSweep.square.gate := by
  rw [Swept.clockSweep]
  split
  · exact h
  · dsimp only
    split
    · exact Swept.closes_step h
    · exact h

theorem Swept.closes_triggerSweep (h : g.Closes c.square.gate) :
    g.Closes c.triggerSweep.square.gate := by
  rw [Swept.triggerSweep]
  dsimp only
  split
  · exact Swept.closes_check h
  · exact h

end Sweep

theorem Square.fed_writeControl {q : Square} (h : q.gate.Fed true) (late : Bool) (value : UInt8) :
    (q.writeControl late value).gate.Fed true := by
  unfold Square.writeControl
  simp only
  split
  · exact Gate.fed_trigger _
  · exact h.closes (Gate.closes_control _ _ _ _)

theorem Swept.fed_writeControl {c : Swept} (h : c.square.gate.Fed true) (late : Bool)
    (value : UInt8) : (c.writeControl late value).square.gate.Fed true := by
  have hq := Square.fed_writeControl h late value
  unfold Swept.writeControl
  simp only
  split
  · exact hq.closes (Swept.closes_triggerSweep (.refl _))
  · exact hq

theorem Wave.fed_writeControl {w : Wave} (h : w.gate.Fed true) (late : Bool) (value : UInt8) :
    (w.writeControl late value).gate.Fed true := by
  unfold Wave.writeControl
  simp only
  split
  · exact Gate.fed_trigger _
  · exact h.closes (Gate.closes_control _ _ _ _)

theorem Noise.fed_writeControl {n : Noise} (h : n.gate.Fed true) (late : Bool) (value : UInt8) :
    (n.writeControl late value).gate.Fed true := by
  unfold Noise.writeControl
  simp only
  split
  · exact Gate.fed_trigger _
  · exact h.closes (Gate.closes_control _ _ _ _)

theorem Square.gate_advance (dots : Nat) (q : Square) : (q.advance dots).gate = q.gate := by
  rw [Square.advance]
  split <;> rfl

theorem Wave.gate_advance (ram : Memory 16) (dots : Nat) (w : Wave) :
    (w.advance ram dots).gate = w.gate := by
  rw [Wave.advance]
  split <;> rfl

theorem Noise.gate_advance (dots : Nat) (n : Noise) : (n.advance dots).gate = n.gate := by
  rw [Noise.advance]
  split <;> rfl

/-- Every channel that is on has its converter on, and power. -/
structure Fed (s : Sound) : Prop where
  swept : s.swept.square.gate.Fed s.powered
  square : s.square.gate.Fed s.powered
  wave : s.wave.gate.Fed s.powered
  noise : s.noise.gate.Fed s.powered

/-- Some channels may have fallen silent; power and converters are as before. -/
structure Quietens (s t : Sound) : Prop where
  powered : t.powered = s.powered
  swept : s.swept.square.gate.Closes t.swept.square.gate
  square : s.square.gate.Closes t.square.gate
  wave : s.wave.gate.Closes t.wave.gate
  noise : s.noise.gate.Closes t.noise.gate

variable {cgb : Bool} {rate : Nat} {s t u : Sound}

theorem Fed.quietens (h : s.Fed) (hq : s.Quietens t) : t.Fed := by
  rcases h with ⟨hc, hs, hw, hn⟩
  rw [← hq.powered] at hc hs hw hn
  exact ⟨hc.closes hq.swept, hs.closes hq.square, hw.closes hq.wave, hn.closes hq.noise⟩

theorem Quietens.refl (s : Sound) : s.Quietens s := ⟨rfl, .refl _, .refl _, .refl _, .refl _⟩

theorem Quietens.trans (h : s.Quietens t) (h' : t.Quietens u) : s.Quietens u :=
  ⟨h'.powered.trans h.powered, h.swept.trans h'.swept, h.square.trans h'.square,
    h.wave.trans h'.wave, h.noise.trans h'.noise⟩

/-! ## The passing of dots -/

theorem Quietens.clockLengths (h : s.Quietens t) : s.Quietens t.clockLengths :=
  ⟨h.powered, h.swept.trans (Gate.closes_clock _), h.square.trans (Gate.closes_clock _),
    h.wave.trans (Gate.closes_clock _), h.noise.trans (Gate.closes_clock _)⟩

theorem Quietens.clockSweep (h : s.Quietens t) : s.Quietens t.clockSweep :=
  { h with swept := Swept.closes_clockSweep h.swept }

theorem Quietens.clockEnvelopes (h : s.Quietens t) : s.Quietens t.clockEnvelopes := { h with }

theorem Quietens.clockSequencer (h : s.Quietens t) : s.Quietens t.clockSequencer := by
  have ite {p : Prop} [Decidable p] {t u : Sound} (ht : s.Quietens t) (hu : s.Quietens u) :
      s.Quietens (if p then t else u) := by split <;> assumption
  have h₀ : s.Quietens { t with
      step := (t.step + 1) % sequencerSteps, countdown := sequencerDots } := { h with }
  have h₁ := ite (p := t.step % 2 = 0) h₀.clockLengths h₀
  have h₂ := ite (p := t.step = 2 ∨ t.step = 6) h₁.clockSweep h₁
  exact ite (p := t.step = 7) h₂.clockEnvelopes h₂

theorem quietens_advanceChannels (dots : Nat) (s : Sound) :
    s.Quietens (s.advanceChannels dots) := by
  have h : s.Quietens { s with
      swept := s.swept.mapSquare (Square.advance dots)
      square := s.square.advance dots
      wave := s.wave.advance s.waveRam dots
      noise := s.noise.advance dots
      countdown := s.countdown - dots } := by
    refine ⟨rfl, ?_, ?_, ?_, ?_⟩
    · exact (Square.gate_advance dots s.swept.square).symm ▸ .refl _
    · exact (Square.gate_advance dots s.square).symm ▸ .refl _
    · exact (Wave.gate_advance s.waveRam dots s.wave).symm ▸ .refl _
    · exact (Noise.gate_advance dots s.noise).symm ▸ .refl _
  rw [advanceChannels]
  dsimp only
  split
  · exact h.clockSequencer
  · exact h

theorem quietens_advanceWithin (dots : Nat) (s : Sound) : s.Quietens (s.advanceWithin dots) := by
  have h : s.Quietens (if s.powered then s.advanceChannels dots else s) := by
    split
    · exact quietens_advanceChannels dots s
    · exact .refl s
  rw [advanceWithin]
  dsimp only
  split <;> exact { h with }

theorem quietens_advance (dots : Nat) (s : Sound) : s.Quietens (s.advance dots) := by
  induction dots, s using Sound.advance.induct with
  | case1 s =>
    rw [Sound.advance, if_pos rfl]
    exact .refl s
  | case2 dots s hd run ih =>
    rw [Sound.advance, if_neg hd]
    exact (quietens_advanceWithin run s).trans ih

/-! ## Writes -/

theorem fed_off (cgb : Bool) (rate : Nat) : (off cgb rate).Fed :=
  ⟨Gate.fed_of_off rfl, Gate.fed_of_off rfl, Gate.fed_of_off rfl, Gate.fed_of_off rfl⟩

theorem fed_powerOff (s : Sound) : s.powerOff.Fed := by
  have h (g : Gate) : (s.unpoweredGate g).on = false := by
    rw [unpoweredGate]
    split <;> rfl
  exact ⟨Gate.fed_of_off (h _), Gate.fed_of_off (h _), Gate.fed_of_off (h _),
    Gate.fed_of_off (h _)⟩

theorem Fed.powerOn (h : s.Fed) : s.powerOn.Fed :=
  ⟨fun hon => ⟨(h.swept hon).1, rfl⟩, fun hon => ⟨(h.square hon).1, rfl⟩,
    fun hon => ⟨(h.wave hon).1, rfl⟩, fun hon => ⟨(h.noise hon).1, rfl⟩⟩

theorem Fed.writeUnpowered (h : s.Fed) (address : UInt16) (value : UInt8) :
    (s.writeUnpowered address value).Fed := by
  rw [Sound.writeUnpowered]
  split
  · exact { h with swept := h.swept }
  · exact { h with square := h.square }
  · exact { h with wave := h.wave }
  · exact { h with noise := h.noise }
  · exact h

theorem Fed.writePowered (h : s.Fed) (hp : s.powered = true) (address : UInt16) (value : UInt8) :
    (s.writePowered address value).Fed := by
  rcases h with ⟨hc, hs, hw, hn⟩
  have keep {t : Sound} (ht : t.powered = s.powered) (hc : t.swept.square.gate.Fed true)
      (hs : t.square.gate.Fed true) (hw : t.wave.gate.Fed true) (hn : t.noise.gate.Fed true) :
      t.Fed := by
    rw [hp] at ht
    exact ⟨ht.symm ▸ hc, ht.symm ▸ hs, ht.symm ▸ hw, ht.symm ▸ hn⟩
  rw [hp] at hc hs hw hn
  rw [Sound.writePowered]
  split
  · exact keep rfl (hc.closes (Gate.closes_silence _ _)) hs hw hn
  · exact keep rfl hc hs hw hn
  · exact keep rfl (Gate.fed_setDac _ _) hs hw hn
  · exact keep rfl hc hs hw hn
  · exact keep rfl (Swept.fed_writeControl hc _ _) hs hw hn
  · exact keep rfl hc hs hw hn
  · exact keep rfl hc (Gate.fed_setDac _ _) hw hn
  · exact keep rfl hc hs hw hn
  · exact keep rfl hc (Square.fed_writeControl hs _ _) hw hn
  · exact keep rfl hc hs (Gate.fed_setDac _ _) hn
  · exact keep rfl hc hs hw hn
  · exact keep rfl hc hs hw hn
  · exact keep rfl hc hs hw hn
  · exact keep rfl hc hs (Wave.fed_writeControl hw _ _) hn
  · exact keep rfl hc hs hw hn
  · exact keep rfl hc hs hw (Gate.fed_setDac _ _)
  · exact keep rfl hc hs hw hn
  · exact keep rfl hc hs hw (Noise.fed_writeControl hn _ _)
  · exact keep rfl hc hs hw hn
  · exact keep rfl hc hs hw hn
  · exact keep rfl hc hs hw hn

theorem Fed.write (h : s.Fed) (address : UInt16) (value : UInt8) : (s.write address value).Fed := by
  rw [Sound.write]
  split
  · exact { h with }
  split
  · rw [writePower]
    split
    · exact fed_powerOff s
    · exact h.powerOn
    · exact h
  split
  · exact h
  split
  · rename_i hp
    have hw : Fed { s with written := s.written.set (address.toNat - firstRegister) value } :=
      { h with }
    exact hw.writePowered hp address value
  · exact h.writeUnpowered address value

/-- The boot ROM powers the unit and puts the converter of the first channel on. -/
theorem boot_writes (s : Sound) :
    let t := bootWrites.foldl (fun s w => s.write w.1 w.2) s
    t.swept.square.gate.dac = true ∧ t.powered = true := by
  have hon : (s.write 0xFF26 0x80).powered = true := by
    change (s.writePower 0x80).powered = true
    rcases s with ⟨_, _, _, _, _, _, _, _, powered⟩
    cases powered <;> rfl
  rw [bootWrites, List.foldl_cons]
  generalize s.write 0xFF26 0x80 = t at hon
  rcases t with ⟨_, _, _, _, _, _, _, _, powered⟩
  cases hon
  exact ⟨rfl, rfl⟩

theorem Fed.boot (h : s.Fed) : s.boot.Fed := by
  have hw := foldl_write (P := Fed) (fun _ address value h => h.write address value) bootWrites h
  obtain ⟨hdac, hp⟩ := boot_writes s
  exact { hw with swept := fun _ => ⟨hdac, hp⟩ }

theorem Reachable.fed (h : Reachable cgb rate s) : s.Fed := by
  induction h with
  | off => exact fed_off cgb rate
  | boot _ ih => exact ih.boot
  | write address value _ ih => exact ih.write address value
  | advance dots _ ih => exact ih.quietens (quietens_advance dots _)
  | takeFrames _ ih => exact { ih with }

/-! ## What the switch shows -/

/-- The low bits of the switch are the channels, and they hold only with power. -/
theorem hasBit_readPower (s : Sound) :
    hasBit s.readPower 0x01 = s.swept.square.gate.on ∧ hasBit s.readPower 0x02 = s.square.gate.on ∧
      hasBit s.readPower 0x04 = s.wave.gate.on ∧ hasBit s.readPower 0x08 = s.noise.gate.on ∧
        hasBit s.readPower 0x80 = s.powered := by
  rw [readPower]
  generalize s.swept.square.gate.on = swept
  generalize s.square.gate.on = square
  generalize s.wave.gate.on = wave
  generalize s.noise.gate.on = noise
  generalize s.powered = powered
  revert swept square wave noise powered
  decide

end DotMatrix.Sound
