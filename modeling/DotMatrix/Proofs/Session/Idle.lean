import DotMatrix.Proofs.Machine.Turns
import DotMatrix.Proofs.Session.Battery

/-!
# When a battery image is due

A session counts the budgets of its ticks since the last of them in which the game wrote to RAM
or clock of the cartridge. The machine does not run for just these dots: each tick begins with
what the one before ran in advance, and ends with what its last turn takes beyond the budget.
The turn that wrote makes up for it. Its own dots are not counted, and they are no fewer than
what is run in advance when the tick ends.
-/
namespace DotMatrix.Session

open Machine

def tickFor (dots : Nat) (s : Session) : Session × Except Failure Unit :=
  match s.failure? with
  | some failure => (s, .error failure)
  | none =>
    let (machine, result) := (s.machine.mapBus (·.press s.buttons)).runFor dots
    let s := ({ s with machine }.collect).note dots
    match result with
    | .ok () => (s, .ok ())
    | .error failure => ({ s with failure? := some failure }, .error failure)

def turns (dots : Nat) (s : Session) : List Turn :=
  (s.machine.mapBus (·.press s.buttons)).turns dots

/-- The sessions that start without a snapshot and whose ticks succeed, with all their turns. -/
inductive Played : Session → List Turn → Prop
  | start {s : Session} (c : Cartridge) (settings : Settings) (now : Nat)
    (battery? : Option Bytes) (h : start c settings now battery? none = .ok s) : Played s []
  | setButtons {s : Session} {log : List Turn} (buttons : UInt8) (h : Played s log) :
    Played (s.setButtons buttons) log
  | takeLines {s : Session} {log : List Turn} (h : Played s log) : Played s.takeLines.1 log
  | batteryImage {s : Session} {log : List Turn} (now : Nat) (h : Played s log) :
    Played (s.batteryImage now).1 log
  | tick {s s' : Session} {log : List Turn} {dots : Nat} (h : Played s log)
    (ht : s.tickFor dots = (s', .ok ())) : Played s' (log ++ s.turns dots)

/-- What becomes of a session in ticks that succeed and in which nothing is stored, with the
sum of their budgets. -/
inductive Rests (s : Session) : Nat → Session → Prop
  | refl : Rests s 0 s
  | setButtons {s' : Session} {dots : Nat} (buttons : UInt8) (h : Rests s dots s') :
    Rests s dots (s'.setButtons buttons)
  | takeLines {s' : Session} {dots : Nat} (h : Rests s dots s') : Rests s dots s'.takeLines.1
  | tick {s' s'' : Session} {dots budget : Nat} (h : Rests s dots s')
    (ht : s'.tickFor budget = (s'', .ok ())) (hq : ∀ t ∈ s'.turns budget, t.stores = false) :
    Rests s (dots + budget) s''

variable {s s' : Session} {log : List Turn} {dots : Nat}

theorem tick_eq (seconds : Float) (s : Session) :
    s.tick seconds = s.tickFor (s.settings.budget seconds) := rfl

/-! ## One tick -/

/-- What a tick that succeeds notes. -/
structure Ticked (s : Session) (dots : Nat) (s' : Session) : Prop where
  failure : s'.failure? = none
  settings : s'.settings = s.settings
  /-- The mark is taken from the cartridge. -/
  slot : s'.machine.core.bus.slot.touched = false
  /-- What is run in advance makes up for what the budget lacks. -/
  total : dotsOf (s.turns dots) + s.machine.overshoot = dots + s'.machine.overshoot
  last : ∀ t ∈ (s.turns dots).getLast?, s'.machine.overshoot ≤ t.dots
  idleDots : s'.idleDots =
    if (s.turns dots).any (·.stores) then 0 else s.idleDots + dots
  batteryDirty : s'.batteryDirty =
    (s.batteryDirty || (s.turns dots).any (·.stores) && s.cartridge.board.battery)

theorem ticked_of_tickFor (hs : s.machine.core.bus.slot.touched = false)
    (ht : s.tickFor dots = (s', .ok ())) : Ticked s dots s' := by
  rw [tickFor] at ht
  cases hf : s.failure? with
  | some failure =>
    rw [hf] at ht
    cases ht
  | none =>
    rcases hr : (s.machine.mapBus (·.press s.buttons)).runFor dots with ⟨m, failure | ⟨⟩⟩
    · simp only [hf, hr] at ht
      cases ht
    · simp only [hf, hr] at ht
      obtain ⟨rfl, -⟩ := Prod.mk.inj ht
      obtain ⟨-, htotal, hlast, htouched⟩ := logs_turns hr
      have hmark : m.core.bus.slot.touched = (s.turns dots).any (·.stores) := by
        rw [htouched]
        change (s.machine.core.bus.slot.touched || _) = _
        rw [hs, Bool.false_or]
        rfl
      refine ⟨rfl, rfl, rfl, htotal, hlast, ?_, ?_⟩
      · rw [← hmark]
        rfl
      · rw [← hmark]
        rfl

/-- The session counts no more dots than have passed, in all and since the last turn that stored
something began, with what has been run in advance on top. -/
structure Waits (s : Session) (log : List Turn) : Prop where
  slot : s.machine.core.bus.slot.touched = false
  count : s.idleDots + s.machine.overshoot ≤ dotsOf log
  quiet : s.batteryDirty = true →
    ∃ dots, Quiet log dots ∧ s.idleDots + s.machine.overshoot ≤ dots

theorem Waits.tick (h : Waits s log) (ht : s.tickFor dots = (s', .ok ())) :
    Waits s' (log ++ s.turns dots) := by
  have hticked := ticked_of_tickFor h.slot ht
  have htotal := hticked.total
  have hcount := h.count
  have hle : s'.idleDots ≤ s.idleDots + dots := by
    rw [hticked.idleDots]
    split <;> omega
  refine ⟨hticked.slot, by rw [dotsOf_append]; omega, fun hd => ?_⟩
  cases hany : (s.turns dots).any (·.stores) with
  | true =>
    obtain ⟨passed, hquiet, t, hlast, hle⟩ := exists_quiet hany
    have hover := hticked.last t hlast
    have hidle := hticked.idleDots
    rw [hany, if_pos rfl] at hidle
    exact ⟨passed, hquiet.prepend log, by omega⟩
  | false =>
    have hnone : ∀ t ∈ s.turns dots, t.stores = false := by simpa using hany
    have hdirty := hticked.batteryDirty
    have hidle := hticked.idleDots
    rw [hany, Bool.false_and, Bool.or_false] at hdirty
    rw [hany, if_neg Bool.false_ne_true] at hidle
    obtain ⟨passed, hquiet, hle⟩ := h.quiet (hdirty ▸ hd)
    exact ⟨_, hquiet.append hnone, by omega⟩

theorem overshoot_of_new {c : Cartridge} {model : Model} {rom? : Option BootRom} {rate now : Nat}
    {m : Machine} (h : Machine.new c model rom? rate now = .ok m) : m.overshoot = 0 := by
  cases rom? with
  | none =>
    cases h
    rfl
  | some rom =>
    simp only [Machine.new] at h
    split at h
    · cases h
      rfl
    · cases h

theorem overshoot_of_withBattery {m m' : Machine} {image : Bytes} {now : Nat}
    (h : withBattery m image now = .ok m') : m'.overshoot = m.overshoot := by
  obtain ⟨slot, -, h⟩ := bind_eq_ok.mp h
  cases h
  rfl

theorem waits_start {c : Cartridge} {settings : Settings} {now : Nat} {battery? : Option Bytes}
    (h : start c settings now battery? none = .ok s) : Waits s [] := by
  obtain ⟨fresh, hnew, h⟩ := bind_eq_ok.mp h
  have hslot : fresh.core.bus.slot.touched = false := by rw [slot_of_new hnew]; rfl
  have hover := overshoot_of_new hnew
  cases battery? with
  | none =>
    cases h
    refine ⟨hslot, ?_, nofun⟩
    change 0 + fresh.overshoot ≤ 0
    omega
  | some image =>
    obtain ⟨m, hw, h⟩ := bind_eq_ok.mp h
    cases h
    obtain ⟨_, hloaded⟩ := Slot.eq_of_loadBattery (slot_of_withBattery hw)
    have hkept : m.overshoot = fresh.overshoot := overshoot_of_withBattery hw
    refine ⟨(congrArg Slot.touched hloaded).trans hslot, ?_, nofun⟩
    change 0 + m.overshoot ≤ 0
    omega

theorem Played.waits (h : Played s log) : Waits s log := by
  induction h with
  | start c settings now battery? h => exact waits_start h
  | setButtons buttons _ ih => exact ⟨ih.slot, ih.count, ih.quiet⟩
  | takeLines _ ih => exact ⟨ih.slot, ih.count, ih.quiet⟩
  | batteryImage now _ ih => exact ⟨ih.slot, ih.count, nofun⟩
  | tick _ ht ih => exact ih.tick ht

/-- A session that rests counts all the budgets. -/
theorem Rests.counts (h : Rests s dots s') (hs : s.machine.core.bus.slot.touched = false) :
    s'.machine.core.bus.slot.touched = false ∧ s'.settings = s.settings ∧
      s'.batteryDirty = s.batteryDirty ∧ s'.idleDots = s.idleDots + dots := by
  induction h with
  | refl => exact ⟨hs, rfl, rfl, rfl⟩
  | setButtons buttons _ ih => exact ih
  | takeLines _ ih => exact ih
  | @tick s' s'' dots budget _ ht hq ih =>
    obtain ⟨hslot, hsettings, hdirty, hidle⟩ := ih
    have hticked := ticked_of_tickFor hslot ht
    have hany : (s'.turns budget).any (·.stores) = false := by simpa using hq
    refine ⟨hticked.slot, hticked.settings.trans hsettings, ?_, ?_⟩
    · rw [hticked.batteryDirty, hany, Bool.false_and, Bool.or_false, hdirty]
    · rw [hticked.idleDots, hany, if_neg Bool.false_ne_true, hidle, Nat.add_assoc]

/-- A battery image is due only when it has changed and the frames that were set have passed
since the last turn that stored something began. And a changed image is due once ticks in which
nothing is stored have been given the dots of these frames. The session never counts more dots
than it has run, so that 64 bits hold the count until it has run for as many. -/
theorem batteryDue_played (h : Played s log) :
    (s.batteryDue = true → s.batteryDirty = true ∧
      ∃ dots, Quiet log dots ∧ s.settings.idleSaveFrames * dotsPerFrame ≤ dots) ∧
    (s.batteryDirty = true → ∀ dots s', Rests s dots s' →
      s.settings.idleSaveFrames * dotsPerFrame ≤ dots → s'.batteryDue = true) ∧
    s.idleDots ≤ dotsOf log := by
  have hwaits := h.waits
  refine ⟨fun hdue => ?_, fun hdirty dots s' hrests hdots => ?_,
    Nat.le_trans (Nat.le_add_right _ _) hwaits.count⟩
  · obtain ⟨hdirty, hidle⟩ := Bool.and_eq_true_iff.mp hdue
    obtain ⟨dots, hquiet, hle⟩ := hwaits.quiet hdirty
    exact ⟨hdirty, dots, hquiet, by have := of_decide_eq_true hidle; omega⟩
  · obtain ⟨-, hsettings, hdirty', hidle⟩ := hrests.counts hwaits.slot
    rw [batteryDue, hsettings, hdirty', hdirty, hidle, Bool.true_and, decide_eq_true_iff]
    omega

/-- An image like the one with RAM and a battery, and with two instructions where it runs: one
stores A in the first byte of the RAM, and one stops. -/
def storingImage : ByteArray :=
  ⟨(List.replicate 0x100 (0 : UInt8) ++ [0xEA, 0x00, 0xA0, 0x10] ++ List.replicate 0x43 0 ++
    [0x09, 0, 0x02, 0, 0, 0, 0xDC, 0, 0]).toArray⟩

def storing : Cartridge :=
  { Cartridge.saved with image := storingImage, title := Cartridge.titleOf storingImage }

theorem ofImage_storing : Cartridge.ofImage storingImage = .ok storing := by
  have hsize : ¬ storingImage.size < Cartridge.headerEnd := by decide +kernel
  have hsum : Cartridge.headerChecksum storingImage = 0xDC := by decide +kernel
  have hbyte : Cartridge.headerByte storingImage 0x14D = 0xDC := by decide +kernel
  have hkind : Cartridge.headerByte storingImage 0x147 = 0x09 := by decide +kernel
  have hrom : Cartridge.headerByte storingImage 0x148 = 0 := by decide +kernel
  have hram : Cartridge.headerByte storingImage 0x149 = 0x02 := by decide +kernel
  have hcolor : Cartridge.colorOf storingImage = .none := by decide +kernel
  simp only [Cartridge.ofImage, hsize, hsum, hbyte, hkind, hrom, hram, hcolor]
  rfl

def storingMachine : Machine :=
  (Origin.booted { Origin.saved with
    image := storingImage, cartridge := storing, accepted := ofImage_storing } 0).mapBus (·.press 0)

def storedMachine : Machine := storingMachine.step.1.step.1

theorem step_eq_of_toOption {m : Machine} {elapsed : Nat} (h : m.step.2.toOption = some elapsed) :
    m.step = (m.step.1, .ok elapsed) := by
  rcases hr : m.step with ⟨m', failure | elapsed'⟩
  · rw [hr] at h
    cases h
  · rw [hr] at h
    cases h
    rfl

theorem runFor_storing : storingMachine.runFor 17 = (storedMachine.ahead 7, .ok ()) ∧
    storingMachine.turns 17 = [⟨16, true⟩, ⟨8, false⟩] := by
  have hs : storingMachine.step = (storingMachine.step.1, .ok 16) :=
    step_eq_of_toOption (by decide +kernel)
  have hs' : storingMachine.step.1.step = (storedMachine, .ok 8) :=
    step_eq_of_toOption (by decide +kernel)
  have hstores : storingMachine.stores = true := by decide +kernel
  have hstores' : storingMachine.step.1.stores = false := by decide +kernel
  constructor
  · rw [runFor_of_lt (Nat.zero_lt_succ 16), spend_of_ok hs, if_neg (by decide), spend_of_ok hs',
      if_pos (by decide)]
    rfl
  · have hover : ¬17 ≤ storingMachine.overshoot := Nat.not_succ_le_zero 16
    rw [Machine.turns, if_neg hover, spendTurns_of_ok hs, if_neg (by decide),
      spendTurns_of_ok hs', if_pos (by decide), hstores, hstores']

theorem asleep_storedMachine : storedMachine.Asleep := ⟨by decide +kernel, by decide +kernel⟩

theorem tickFor_of_runFor {n m : Machine} (hf : s.failure? = none)
    (hn : s.machine.mapBus (·.press s.buttons) = n) (hr : n.runFor dots = (m, .ok ())) :
    s.tickFor dots = (({ s with machine := m }.collect).note dots, .ok ()) := by
  rw [← hn] at hr
  simp only [tickFor, hf, hr]

/-- What the host does between two ticks does not wake the console. -/
theorem asleep_note {m : Machine} (h : m.Asleep) (hb : s.buttons = 0) (dots : Nat) :
    let noted := ({ s with machine := m }.collect).note dots
    (noted.machine.mapBus (·.press noted.buttons)).Asleep := ⟨h.stopped, hb⟩

theorem start_storing : ∃ s, start storing { idleSaveFrames := 1 } 0 none none = .ok s ∧
    s.machine.mapBus (·.press s.buttons) = storingMachine ∧ s.failure? = none ∧
    s.buttons = 0 ∧ s.settings.idleSaveFrames = 1 ∧ s.cartridge.board.battery = true :=
  ⟨_, rfl, rfl, rfl, rfl, rfl, rfl⟩

/-- A tick of seventeen dots stores a byte and stops. -/
theorem tickFor_storing : ∃ s, Played s [⟨16, true⟩, ⟨8, false⟩] ∧ s.failure? = none ∧
    (s.machine.mapBus (·.press s.buttons)).Asleep ∧ s.settings.idleSaveFrames = 1 ∧
    s.batteryDirty = true ∧ s.idleDots = 0 := by
  obtain ⟨s₀, hstart, hmachine, hf, hbuttons, hframes, hbattery⟩ := start_storing
  obtain ⟨hrun, hturns⟩ := runFor_storing
  have hlog : s₀.turns 17 = [⟨16, true⟩, ⟨8, false⟩] :=
    (congrArg (Machine.turns 17) hmachine).trans hturns
  have hplayed := Played.start _ _ _ _ hstart
  have htick := tickFor_of_runFor hf hmachine hrun
  have hticked := ticked_of_tickFor hplayed.waits.slot htick
  have hnext := hplayed.tick htick
  rw [List.nil_append, hlog] at hnext
  have hasleep : (storedMachine.ahead 7).Asleep := asleep_storedMachine.ahead 7
  refine ⟨_, hnext, hticked.failure, asleep_note hasleep hbuttons 17, ?_, ?_, ?_⟩
  · rw [hticked.settings]
    exact hframes
  · rw [hticked.batteryDirty, hlog, hbattery]
    exact Bool.or_true _
  · rw [hticked.idleDots, hlog]
    rfl

/-- With one frame to wait for, the image of that session is not due yet, and it is after a tick
of a frame in which the console sleeps. -/
theorem batteryDue_played_storing : ∃ s s' log log', Played s log ∧ Played s' log' ∧
    s.settings.idleSaveFrames = 1 ∧ s.batteryDue = false ∧ Rests s dotsPerFrame s' ∧
    s'.batteryDue = true ∧ ∃ dots, Quiet log' dots ∧ dotsPerFrame ≤ dots := by
  obtain ⟨s, hplayed, hf, hasleep, hframes, hdirty, hidle⟩ := tickFor_storing
  obtain ⟨m, hrun, hquiet⟩ := runFor_of_asleep hasleep dotsPerFrame
  have htick := tickFor_of_runFor hf rfl hrun
  have hnext := hplayed.tick htick
  have hticked := ticked_of_tickFor hplayed.waits.slot htick
  have hrests := Rests.refl.tick htick hquiet
  rw [Nat.zero_add] at hrests
  have hnotDue : s.batteryDue = false := by
    rw [batteryDue, hdirty, hframes, hidle]
    rfl
  have hdue := (batteryDue_played hplayed).2.1 hdirty _ _ hrests (by rw [hframes, Nat.one_mul])
  obtain ⟨-, dots, hsince, hle⟩ := (batteryDue_played hnext).1 hdue
  rw [hticked.settings, hframes, Nat.one_mul] at hle
  exact ⟨s, _, _, _, hplayed, hnext, hframes, hnotDue, hrests, hdue, dots, hsince, hle⟩

end DotMatrix.Session
