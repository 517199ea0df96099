import DotMatrix.Proofs.Memory
import DotMatrix.Proofs.Sound.Sounding
import Mathlib.Data.List.Induction

/-!
# The power switch

Without power nothing that is written or passes reaches the channels but for their length
counters, and the registers show nothing but their unused bits; the switch shows no channel.
With power it shows the channels that are on, and these have their converters on.
-/
namespace DotMatrix.Sound

/-- What happens to a unit: a register is written, or dots pass. -/
inductive Act where
  | write (address : UInt16) (value : UInt8)
  | pass (dots : Nat)
deriving DecidableEq, Repr

def Act.apply (s : Sound) : Act → Sound
  | .write address value => s.write address value
  | .pass dots => s.advance dots

def Act.powersOn : Act → Bool
  | .write address value => address = 0xFF26 && hasBit value 0x80
  | .pass _ => false

def after (acts : List Act) (s : Sound) : Sound := acts.foldl Act.apply s

def Act.written? (register : UInt16) : Act → Option UInt8
  | .write address value => if address = register then some value else none
  | .pass _ => none

def lastWritten? (register : UInt16) (acts : List Act) : Option UInt8 :=
  acts.reverse.findSome? (Act.written? register)

/-- A length after a value may have been written to its register. -/
def newLength (full length : Nat) (written? : Option UInt8) : Nat :=
  written?.elim length fun value => full - value.toNat % full

theorem after_concat (acts : List Act) (act : Act) (s : Sound) :
    after (acts ++ [act]) s = act.apply (after acts s) := by
  rw [after, List.foldl_append]
  rfl

theorem newLength_concat (full length : Nat) (register : UInt16) (acts : List Act) (act : Act) :
    newLength full length (lastWritten? register (acts ++ [act])) =
      newLength full (newLength full length (lastWritten? register acts))
        (act.written? register) := by
  rw [lastWritten?, List.reverse_concat, List.findSome?_cons]
  cases act.written? register <;> rfl

/-! ## A unit without power -/

/-- There is no power, the registers are clear, and the channels are as new but for their
lengths. -/
structure Dark (swept square wave noise : Nat) (s : Sound) : Prop where
  powered : s.powered = false
  written : s.written = default
  swept : s.swept = { square := { gate := { length := swept } } }
  square : s.square = { gate := { length := square } }
  wave : s.wave = { gate := { length := wave } }
  noise : s.noise = { gate := { length := noise } }

variable {cgb : Bool} {rate : Nat} {s : Sound} {swept square wave noise : Nat}

theorem dark_powerOff (s : Sound) : s.powerOff.Dark
    (if s.cgb then 0 else s.swept.square.gate.length) (if s.cgb then 0 else s.square.gate.length)
    (if s.cgb then 0 else s.wave.gate.length) (if s.cgb then 0 else s.noise.gate.length) := by
  have h (g : Gate) : s.unpoweredGate g = { length := if s.cgb then 0 else g.length } := by
    rw [unpoweredGate]
    split <;> rfl
  refine ⟨rfl, rfl, ?_, ?_, ?_, ?_⟩ <;> rw [powerOff] <;> simp only [h]

theorem Dark.advance (h : s.Dark swept square wave noise) (dots : Nat) :
    (s.advance dots).Dark swept square wave noise := by
  induction dots, s using Sound.advance.induct with
  | case1 s =>
    rw [Sound.advance, if_pos rfl]
    exact h
  | case2 dots s hd run ih =>
    have hw : (s.advanceWithin run).Dark swept square wave noise := by
      rw [advanceWithin, if_neg (by rw [h.powered]; exact Bool.false_ne_true)]
      dsimp only
      split <;> exact { h with }
    rw [Sound.advance, if_neg hd]
    exact ih hw

theorem Dark.write (h : s.Dark swept square wave noise) {address : UInt16} {value : UInt8}
    (hp : ¬(Act.write address value).powersOn = true) :
    (s.write address value).Dark
      (newLength 64 swept ((Act.write address value).written? 0xFF11))
      (newLength 64 square ((Act.write address value).written? 0xFF16))
      (newLength 256 wave ((Act.write address value).written? 0xFF1B))
      (newLength 64 noise ((Act.write address value).written? 0xFF20)) := by
  -- Elsewhere than at the four length registers no length changes.
  have elsewhere {t : Sound} (ht : t.Dark swept square wave noise)
      (ha : address ≠ 0xFF11 ∧ address ≠ 0xFF16 ∧ address ≠ 0xFF1B ∧ address ≠ 0xFF20) :
      t.Dark (newLength 64 swept ((Act.write address value).written? 0xFF11))
        (newLength 64 square ((Act.write address value).written? 0xFF16))
        (newLength 256 wave ((Act.write address value).written? 0xFF1B))
        (newLength 64 noise ((Act.write address value).written? 0xFF20)) := by
    simp only [Act.written?, if_neg ha.1, if_neg ha.2.1, if_neg ha.2.2.1, if_neg ha.2.2.2]
    exact ht
  rw [Sound.write]
  split
  · rename_i hw
    refine elsewhere { h with } ?_
    refine ⟨?_, ?_, ?_, ?_⟩ <;> rintro rfl <;> exact absurd hw (by decide)
  split
  · rename_i ha
    subst ha
    have hv : hasBit value 0x80 = false := by
      rw [Act.powersOn, Bool.and_eq_true_iff] at hp
      exact Bool.eq_false_iff.mpr fun hv => hp ⟨rfl, hv⟩
    rw [writePower, h.powered, hv]
    exact elsewhere h (by decide)
  split
  · rename_i hr
    refine elsewhere h ?_
    refine ⟨?_, ?_, ?_, ?_⟩ <;> rintro rfl <;> exact absurd hr (by decide)
  split
  · rename_i hon
    exact absurd hon (by rw [h.powered]; exact Bool.false_ne_true)
  rw [writeUnpowered]
  split
  · rename_i ha
    obtain rfl : address = 0xFF11 := UInt16.toNat_inj.mp ha
    exact { h with swept := by rw [h.swept]; rfl }
  · rename_i ha
    obtain rfl : address = 0xFF16 := UInt16.toNat_inj.mp ha
    exact { h with square := by rw [h.square]; rfl }
  · rename_i ha
    obtain rfl : address = 0xFF1B := UInt16.toNat_inj.mp ha
    have hlength : newLength 256 wave ((Act.write 0xFF1B value).written? 0xFF1B) =
        Wave.maxLength - value.toNat :=
      congrArg (256 - ·) (Nat.mod_eq_of_lt value.toNat_lt)
    rw [hlength]
    exact { h with wave := by rw [h.wave]; rfl }
  · rename_i ha
    obtain rfl : address = 0xFF20 := UInt16.toNat_inj.mp ha
    exact { h with noise := by rw [h.noise]; rfl }
  · rename_i h₁ h₂ h₃ h₄
    refine elsewhere h ⟨?_, ?_, ?_, ?_⟩ <;> rintro rfl
    · exact h₁ rfl
    · exact h₂ rfl
    · exact h₃ rfl
    · exact h₄ rfl

theorem Dark.apply (h : s.Dark swept square wave noise) {act : Act} (hp : ¬act.powersOn = true) :
    (act.apply s).Dark (newLength 64 swept (act.written? 0xFF11))
      (newLength 64 square (act.written? 0xFF16)) (newLength 256 wave (act.written? 0xFF1B))
      (newLength 64 noise (act.written? 0xFF20)) := by
  cases act with
  | write address value => exact h.write hp
  | pass dots => exact h.advance dots

/-- As long as the power stays off, each length is the last that was written. -/
theorem Dark.after (h : s.Dark swept square wave noise) {acts : List Act}
    (hp : ∀ act ∈ acts, ¬act.powersOn = true) :
    (after acts s).Dark (newLength 64 swept (lastWritten? 0xFF11 acts))
      (newLength 64 square (lastWritten? 0xFF16 acts))
      (newLength 256 wave (lastWritten? 0xFF1B acts))
      (newLength 64 noise (lastWritten? 0xFF20 acts)) := by
  induction acts using List.reverseRecOn with
  | nil => exact h
  | append_singleton acts act ih =>
    have hacts := ih fun a ha => hp a (List.mem_append_left _ ha)
    simp only [newLength_concat, after_concat]
    exact hacts.apply (hp act (List.mem_append_right _ List.mem_cons_self))

theorem Dark.read_power (h : s.Dark swept square wave noise) : s.read 0xFF26 = 0x70 := by
  change s.readPower = 0x70
  rw [readPower, h.powered, h.swept, h.square, h.wave, h.noise]
  simp only [Bool.false_eq_true, if_false]
  decide

theorem Dark.read_register (h : s.Dark swept square wave noise) {address : UInt16}
    (hl : 0xFF10 ≤ address) (hu : address ≤ 0xFF25) : s.read address = readMask address := by
  have hr : isRegister address = true :=
    Bool.and_eq_true_iff.mpr ⟨decide_eq_true hl, decide_eq_true hu⟩
  have hu' : address.toNat ≤ 0xFF25 := UInt16.le_iff_toNat_le.mp hu
  have hp : address ≠ 0xFF26 := by
    rintro rfl
    exact absurd hu' (by decide)
  have hw : ¬inWaveRam address = true := by
    intro hw
    have h₃₀ : (0xFF30 : UInt16).toNat ≤ address.toNat :=
      UInt16.le_iff_toNat_le.mp (of_decide_eq_true (Bool.and_eq_true_iff.mp hw).1)
    exact absurd (Nat.le_trans h₃₀ hu') (by decide)
  rw [Sound.read, if_neg hp, if_neg hw, if_pos hr, h.written, Memory.get_default, UInt8.zero_or]

theorem Dark.mix (h : s.Dark swept square wave noise) : s.mix = (0, 0) := by
  rw [Sound.mix, if_neg (by rw [h.powered]; exact Bool.false_ne_true)]

/-- The channels with the bits of the switch that stand for them. -/
def shown (s : Sound) : List (UInt8 × Gate) :=
  [(0x01, s.swept.square.gate), (0x02, s.square.gate), (0x04, s.wave.gate), (0x08, s.noise.gate)]

theorem Fed.of_shown (h : s.Fed) {bit : UInt8} {gate : Gate} (hs : (bit, gate) ∈ s.shown)
    (hb : hasBit (s.read 0xFF26) bit = true) : gate.dac = true ∧ s.powered = true := by
  obtain ⟨hc, hq, hw, hn, _⟩ := s.hasBit_readPower
  change hasBit s.readPower bit = true at hb
  simp only [shown, List.mem_cons, List.not_mem_nil, or_false, Prod.mk.injEq] at hs
  rcases hs with ⟨rfl, rfl⟩ | ⟨rfl, rfl⟩ | ⟨rfl, rfl⟩ | ⟨rfl, rfl⟩
  · exact h.swept (hc.symm.trans hb)
  · exact h.square (hq.symm.trans hb)
  · exact h.wave (hw.symm.trans hb)
  · exact h.noise (hn.symm.trans hb)

/-- A unit that no snapshot was loaded into: a channel that the switch shows as on has its
converter on, and there is power. From the moment that the power goes off until it comes on
again, whatever else is written and however many dots pass, the switch shows nothing, each
register its unused bits, no side has a level, and the channels are as new but for their
lengths: the last that was written, or else the length they had on a monochrome console, and
zero on a colour console. -/
theorem power_switch_truthful (h : Reachable cgb rate s) :
    (∀ bit gate, (bit, gate) ∈ s.shown → hasBit (s.read 0xFF26) bit = true →
      gate.dac = true ∧ s.powered = true) ∧
    (s.powered = true → ∀ value, hasBit value 0x80 = false →
      ∀ acts : List Act, (∀ act ∈ acts, ¬act.powersOn = true) →
        let t := after acts (s.write 0xFF26 value)
        let length (full : Nat) (register : UInt16) (gate : Gate) :=
          newLength full (if cgb then 0 else gate.length) (lastWritten? register acts)
        t.read 0xFF26 = 0x70 ∧
          (∀ address, 0xFF10 ≤ address → address ≤ 0xFF25 → t.read address = readMask address) ∧
          t.mix = (0, 0) ∧
          t.swept = { square := { gate := { length := length 64 0xFF11 s.swept.square.gate } } } ∧
          t.square = { gate := { length := length 64 0xFF16 s.square.gate } } ∧
          t.wave = { gate := { length := length 256 0xFF1B s.wave.gate } } ∧
          t.noise = { gate := { length := length 64 0xFF20 s.noise.gate } }) := by
  refine ⟨fun bit gate => h.fed.of_shown, fun hp value hv acts hacts => ?_⟩
  have hcgb : s.cgb = cgb := congrArg Prod.fst h.config
  have hoff : s.write 0xFF26 value = s.powerOff := by
    change s.writePower value = s.powerOff
    rw [writePower, hp, hv]
  have hdark := (dark_powerOff s).after hacts
  rw [← hoff, hcgb] at hdark
  exact ⟨hdark.read_power, fun address => hdark.read_register, hdark.mix, hdark.swept,
    hdark.square, hdark.wave, hdark.noise⟩

/-- The tone that was retuned is shown with its converter on. When it is switched off a write
to its envelope is lost, one to its length is kept, and the length of the noise is gone, as on
a colour console. -/
theorem power_switch_truthful_retuned :
    let t := after [.write 0xFF12 0xF0, .write 0xFF11 0x3E, .pass 70224] (retuned.write 0xFF26 0)
    hasBit (retuned.read 0xFF26) 0x01 = true ∧ retuned.swept.square.gate.dac = true ∧
      retuned.powered = true ∧ t.read 0xFF26 = 0x70 ∧ t.read 0xFF12 = 0 ∧
      t.swept = { square := { gate := { length := 2 } } } ∧ t.noise = {} := by
  have hbit : hasBit (retuned.read 0xFF26) 0x01 = true := by decide
  obtain ⟨hshown, hoff⟩ := power_switch_truthful reachable_retuned
  obtain ⟨hdac, hp⟩ := hshown 0x01 retuned.swept.square.gate List.mem_cons_self hbit
  obtain ⟨hswitch, hread, _, hswept, _, _, hnoise⟩ := hoff hp 0 (by decide)
    [.write 0xFF12 0xF0, .write 0xFF11 0x3E, .pass 70224] (by decide)
  exact ⟨hbit, hdac, hp, hswitch, hread 0xFF12 (by decide) (by decide), hswept, hnoise⟩

end DotMatrix.Sound
