import DotMatrix.Proofs.Cartridge.Ram
import DotMatrix.Proofs.Machine.Budget
import DotMatrix.Proofs.Machine.Marks
import Mathlib.Data.List.Induction

/-!
# The turns of a budget

A budget is spent in turns: in each of them the processor makes a step, or waits for a
transfer. A turn takes some dots, and it may store something in the cartridge. The log of a
budget says both of every turn, and so how many dots have passed since the last turn that
stored something began.
-/
namespace DotMatrix

namespace Slot

/-- A write to the RAM window changes the RAM or the clock. -/
def accepts (s : Slot) (address : UInt16) : Bool :=
  match s.controller.window with
  | .closed => false
  | .ram bank => s.cell bank address < s.ram.size
  | .halfBytes => halfByteCell address < s.ram.size
  | .clock _ => s.controller.clock?.isSome

variable {s : Slot}

theorem touched_writeRam (s : Slot) (address : UInt16) (value : UInt8) :
    (s.writeRam address value).touched = (s.touched || s.accepts address) := by
  rw [writeRam, accepts]
  cases s.controller.window with
  | closed => exact (Bool.or_false _).symm
  | ram bank => exact touched_setRamByte s _ _
  | halfBytes => exact touched_setRamByte s _ _
  | clock register =>
    cases hc : s.controller.clock?.isSome with
    | false => simp
    | true => simp

theorem touched_advance (dots : Nat) (s : Slot) : (s.advance dots).touched = s.touched := by
  rw [advance]
  split <;> rfl

end Slot

namespace Bus

/-- A write of the processor changes RAM or clock of the cartridge. -/
def accepts (b : Bus) (address : UInt16) : Bool :=
  !b.objectsBusy && Region.decode address == .cartridgeRam && b.slot.accepts address

variable {b b' : Bus} {stores : Bool}

theorem register_ne_cartridgeRam (a : Nat) : Region.register a ≠ .cartridgeRam := by
  simp [Region.register, ite_eq_iff]

theorem decode_ne_cartridgeRam {address : UInt16} (h : ¬address < 0xFF00) :
    Region.decode address ≠ .cartridgeRam := by
  have hle : 0xFF00 ≤ address.toNat := Nat.le_of_not_lt h
  simp only [Region.decode]
  iterate 6 rw [if_neg (by omega)]
  split
  · exact register_ne_cartridgeRam address.toNat
  split
  · rintro ⟨⟩
  · rintro ⟨⟩

/-- Only the RAM window leads to the mark. -/
theorem touched_writeRegion {region : Region} (h : region ≠ .cartridgeRam) (b : Bus)
    (address : UInt16) (value : UInt8) :
    (b.writeRegion region address value).slot.touched = b.slot.touched := by
  cases region with
  | cartridgeRam => exact absurd rfl h
  | video => exact congrArg (·.1.touched) (bystanders_writeVideo b address value)
  | blockTransfer =>
    rw [writeRegion]
    split
    · exact congrArg (·.1.touched) (bystanders_writeBlockTransfer b address value)
    · rfl
  | speed => rw [writeRegion]; split <;> rfl
  | bootSwitch => rw [writeRegion]; split <;> rfl
  | workBank => rw [writeRegion]; split <;> rfl
  | _ => rfl

theorem touched_write (b : Bus) (address : UInt16) (value : UInt8) :
    (b.write address value).slot.touched = (b.slot.touched || b.accepts address) := by
  by_cases hregion : Region.decode address = .cartridgeRam
  · have haddress : address < 0xFF00 := Decidable.not_not.mp (decode_ne_cartridgeRam · hregion)
    simp only [write_eq, accepts, hregion, haddress, decide_true, Bool.and_true, beq_self_eq_true]
    cases b.objectsBusy with
    | true => exact (Bool.or_false _).symm
    | false => exact Slot.touched_writeRam b.slot address value
  · have haccepts : b.accepts address = false := by
      rw [accepts, beq_eq_false_iff_ne.mpr hregion, Bool.and_false, Bool.false_and]
    rw [haccepts, Bool.or_false]
    rw [write_eq]
    split
    · rfl
    split
    · exact touched_writeRegion hregion b address value
    · rfl

/-- What the processor does to the bus in one step, and whether a write among it changes RAM
or clock of the cartridge. -/
inductive Storing : Bus → Bool → Bus → Prop
  | none (b : Bus) : Storing b false b
  | write (b : Bus) (address : UInt16) (value : UInt8) :
    Storing b (b.accepts address) (b.write address value)
  | writes (b : Bus) (address next : UInt16) (value other : UInt8) :
    Storing b (b.accepts address || (b.write address value).accepts next)
      ((b.write address value).write next other)
  | serve (b b' : Bus) (kept : UInt8) {stores : Bool}
    (call : Storing { b with requests := b.requests &&& kept } stores b') : Storing b stores b'
  | resetDivider (b : Bus) : Storing b false b.resetDivider
  | switchSpeed (b : Bus) : Storing b false b.switchSpeed

theorem Effect.exists_storing (h : Effect b b') : ∃ stores, Storing b stores b' := by
  induction h with
  | none b => exact ⟨_, .none b⟩
  | write b address value => exact ⟨_, .write b address value⟩
  | writes b address next value other _ => exact ⟨_, .writes b address next value other⟩
  | serve b b' kept _ ih =>
    obtain ⟨stores, h⟩ := ih
    exact ⟨stores, .serve b b' kept h⟩
  | resetDivider b => exact ⟨_, .resetDivider b⟩
  | switchSpeed b => exact ⟨_, .switchSpeed b⟩

/-- The mark is set by writes that change RAM or clock, and by nothing else. -/
theorem Storing.touched (h : Storing b stores b') :
    b'.slot.touched = (b.slot.touched || stores) := by
  induction h with
  | none b => exact (Bool.or_false _).symm
  | write b address value => exact touched_write b address value
  | writes b address next value other =>
    rw [touched_write, touched_write, Bool.or_assoc]
  | serve b b' kept _ ih => exact ih
  | resetDivider b => exact (Bool.or_false _).symm
  | switchSpeed b => exact (Bool.or_false _).symm

end Bus

namespace Machine

variable {m m' : Machine} {dots elapsed : Nat}

/-! ## What a turn stores -/

/-- The next turn changes RAM or clock of the cartridge: it leaves the mark that the host has
just taken. -/
def stores (m : Machine) : Bool := m.emptied.step.1.core.bus.slot.touched

theorem touched_step (m : Machine) :
    m.step.1.core.bus.slot.touched = (m.core.bus.slot.touched || m.stores) := by
  obtain ⟨u, hleaves, h⟩ := step_behind m.unsaved m.emptied
  rw [emptied_behind_unsaved] at h
  rw [h]
  exact congrArg (· || m.stores) hleaves.touched

/-- A turn in which the processor makes a step stores something exactly if one of the writes
of the step is accepted. -/
theorem storing_step (hs : m.core.bus.stall = 0) :
    Bus.Storing m.emptied.core.bus m.stores m.emptied.core.step.1.bus := by
  obtain ⟨stores, h⟩ := (Core.steps_step m.emptied.core).effect.exists_storing
  have htouched := h.touched
  have hstep : m.stores = m.emptied.core.step.1.bus.slot.touched := by
    have hs' : m.emptied.core.bus.stall = 0 := hs
    rw [Machine.stores, step, if_pos hs']
    rcases m.emptied.core.step with ⟨core, failure | cycles⟩
    · rfl
    · exact (congrArg Slot.touched (Bus.slot_advance cycles core.bus)).trans
        (Slot.touched_advance _ _)
  rw [hstep, htouched]
  exact h

/-- A turn in which the processor waits stores nothing. -/
theorem stores_of_stall (hs : m.core.bus.stall ≠ 0) : m.stores = false := by
  have hs' : m.emptied.core.bus.stall ≠ 0 := hs
  rw [stores, step, if_neg hs']
  exact (congrArg Slot.touched (Bus.slot_advance _ _)).trans (Slot.touched_advance _ _)

/-! ## The log -/

structure Turn where
  dots : Nat
  /-- The turn changes RAM or clock of the cartridge. -/
  stores : Bool
deriving DecidableEq, Repr

/-- The turns in which some dots are spent, without one that fails. -/
def spendTurns (dots : Nat) (m : Machine) : List Turn :=
  match _stepped : m.step with
  | (_, .error _) => []
  | (m', .ok elapsed) =>
    ⟨elapsed, m.stores⟩ :: if dots ≤ elapsed then [] else m'.spendTurns (dots - elapsed)
termination_by (dots, m.core.bus.stall)
decreasing_by
  rcases Nat.eq_zero_or_pos elapsed with rfl | hpos
  · exact Prod.Lex.right _ (stall_step_lt _stepped)
  · exact Prod.Lex.left _ _ (by omega)

def turns (dots : Nat) (m : Machine) : List Turn :=
  if dots ≤ m.overshoot then [] else m.spendTurns (dots - m.overshoot)

theorem spendTurns_of_ok (hs : m.step = (m', .ok elapsed)) : m.spendTurns dots =
    ⟨elapsed, m.stores⟩ :: if dots ≤ elapsed then [] else m'.spendTurns (dots - elapsed) := by
  rw [spendTurns]
  split
  · rename_i h
    rw [hs] at h
    cases h
  · rename_i h
    rw [hs] at h
    cases h
    rfl

/-- A call that has dots to spend makes a turn. -/
theorem spendTurns_ne_nil (h : m.spend dots = (m', .ok ())) : m.spendTurns dots ≠ [] := by
  rcases hs : m.step with ⟨n, failure | elapsed⟩
  · rw [spend_of_error hs] at h
    cases h
  · rw [spendTurns_of_ok hs]
    exact List.cons_ne_nil _ _

def dotsOf (log : List Turn) : Nat := (log.map (·.dots)).sum

@[simp] theorem dotsOf_cons (t : Turn) (log : List Turn) :
    dotsOf (t :: log) = t.dots + dotsOf log := List.sum_cons

@[simp] theorem dotsOf_append (log log' : List Turn) :
    dotsOf (log ++ log') = dotsOf log + dotsOf log' := by
  rw [dotsOf, List.map_append, List.sum_append]
  rfl

/-- What the log of a call that succeeds says of it: its turns are the steps that the machine
makes, and they take the dots asked for, but for what has been run in advance. The overshoot
is a part of the last turn. The mark is left exactly if a turn stores something. -/
structure Logs (m : Machine) (dots : Nat) (log : List Turn) (m' : Machine) : Prop where
  steps : ∃ m₁, Steps m (log.map (·.dots)) m₁ ∧ m' = m₁.ahead m'.overshoot
  total : dotsOf log + m.overshoot = dots + m'.overshoot
  last : ∀ t ∈ log.getLast?, m'.overshoot ≤ t.dots
  touched : m'.core.bus.slot.touched = (m.core.bus.slot.touched || log.any (·.stores))

theorem logs_spendTurns (h : m.spend dots = (m', .ok ())) :
    Logs (m.ahead 0) dots (m.spendTurns dots) m' := by
  induction dots, m using spend.induct with
  | case1 dots m n failure hs =>
    rw [spend_of_error hs] at h
    cases h
  | case2 dots m n elapsed hs hle =>
    have hmark := touched_step m
    rw [hs] at hmark
    rw [spend_of_ok hs, if_pos hle] at h
    cases h
    rw [spendTurns_of_ok hs, if_pos hle]
    refine ⟨⟨n.ahead 0, .step ((step_ahead 0 m).trans (by rw [hs])) (.done _), rfl⟩, ?_, ?_, ?_⟩
    · change elapsed + 0 + 0 = dots + (elapsed - dots)
      omega
    · intro t ht
      cases ht
      exact Nat.sub_le elapsed dots
    · rw [List.any_cons, List.any_nil, Bool.or_false]
      exact hmark
  | case3 dots m n elapsed hs hgt ih =>
    have hmark := touched_step m
    rw [hs] at hmark
    rw [spend_of_ok hs, if_neg hgt] at h
    obtain ⟨⟨m₁, hsteps, hm₁⟩, htotal, hlast, htouched⟩ := ih h
    rw [spendTurns_of_ok hs, if_neg hgt]
    refine ⟨⟨m₁, .step ((step_ahead 0 m).trans (by rw [hs])) hsteps, hm₁⟩, ?_, ?_, ?_⟩
    · rw [dotsOf_cons]
      change _ + 0 = _ at htotal
      change elapsed + _ + 0 = _
      omega
    · intro t ht
      obtain ⟨first, rest, hturns⟩ := List.exists_cons_of_ne_nil (spendTurns_ne_nil h)
      rw [hturns, List.getLast?_cons_cons, ← hturns] at ht
      exact hlast t ht
    · rw [List.any_cons, htouched]
      change (n.core.bus.slot.touched || _) = (m.core.bus.slot.touched || (m.stores || _))
      rw [hmark, Bool.or_assoc]

theorem logs_turns (h : m.runFor dots = (m', .ok ())) : Logs m dots (m.turns dots) m' := by
  by_cases ho : dots ≤ m.overshoot
  · rw [runFor_of_le ho] at h
    cases h
    rw [turns, if_pos ho]
    refine ⟨⟨m, .done m, rfl⟩, ?_, nofun, (Bool.or_false _).symm⟩
    change 0 + m.overshoot = dots + (m.overshoot - dots)
    omega
  · rw [runFor_of_lt (Nat.lt_of_not_le ho)] at h
    obtain ⟨⟨m₁, hsteps, hm'⟩, htotal, hlast, htouched⟩ := logs_spendTurns h
    rw [turns, if_neg ho]
    refine ⟨⟨m₁.ahead m.overshoot, hsteps.ahead m.overshoot, hm'⟩, ?_, hlast, htouched⟩
    change _ + 0 = _ at htotal
    omega

/-! ## A stopped machine -/

/-- The processor waits for a button, and none is pressed. -/
structure Asleep (m : Machine) : Prop where
  stopped : m.core.cpu.stopped = true
  released : m.core.bus.joypad.pressed = 0

theorem Asleep.ahead (h : m.Asleep) (overshoot : Nat) : (m.ahead overshoot).Asleep :=
  ⟨h.stopped, h.released⟩

/-- Only time passes. -/
theorem step_of_asleep (h : m.Asleep) : ∃ m' elapsed, m.step = (m', .ok elapsed) ∧ m'.Asleep ∧
    m'.core.bus.slot.touched = m.core.bus.slot.touched := by
  have hjoypad (cycles : Nat) (b : Bus) (hb : b.joypad.pressed = 0) :
      (b.advance cycles).1.joypad.pressed = 0 := by rwa [Bus.joypad_advance]
  have hslot (cycles : Nat) (b : Bus) : (b.advance cycles).1.slot.touched = b.slot.touched := by
    rw [Bus.slot_advance, Slot.touched_advance]
  by_cases hs : m.core.bus.stall = 0
  · have hwait : m.core.start.stepMachine = (m.core.start.waitForButton, .ok ()) := if_pos h.stopped
    have hstill : m.core.start.waitForButton.cpu.stopped = true := by
      change (m.core.cpu.stopped && !(m.core.bus.joypad.pressed != 0)) = true
      rw [h.stopped, h.released]
      rfl
    rw [step, if_pos hs, Core.step, hwait]
    exact ⟨_, _, rfl, ⟨hstill, hjoypad _ m.core.bus h.released⟩, hslot _ _⟩
  · rw [step, if_neg hs]
    exact ⟨_, _, rfl, ⟨h.stopped, hjoypad _ _ h.released⟩, hslot _ _⟩

theorem stores_of_asleep (h : m.Asleep) : m.stores = false := by
  obtain ⟨m', elapsed, hs, -, htouched⟩ := step_of_asleep (m := m.emptied) ⟨h.stopped, h.released⟩
  rw [stores, hs, htouched]
  rfl

/-- A stopped machine spends every budget, and stores nothing in it. -/
theorem spend_of_asleep (h : m.Asleep) (dots : Nat) : ∃ m', m.spend dots = (m', .ok ()) ∧
    ∀ t ∈ m.spendTurns dots, t.stores = false := by
  induction dots, m using spend.induct with
  | case1 dots m n failure hs =>
    obtain ⟨m', elapsed, hs', -⟩ := step_of_asleep h
    rw [hs'] at hs
    cases hs
  | case2 dots m n elapsed hs hle =>
    refine ⟨_, by rw [spend_of_ok hs, if_pos hle], fun t ht => ?_⟩
    rw [spendTurns_of_ok hs, if_pos hle, List.mem_singleton] at ht
    rw [ht]
    exact stores_of_asleep h
  | case3 dots m n elapsed hs hgt ih =>
    obtain ⟨m', elapsed', hs', hasleep, -⟩ := step_of_asleep h
    rw [hs] at hs'
    cases hs'
    obtain ⟨rested, hspend, hquiet⟩ := ih hasleep
    refine ⟨rested, by rw [spend_of_ok hs, if_neg hgt, hspend], fun t ht => ?_⟩
    rw [spendTurns_of_ok hs, if_neg hgt, List.mem_cons] at ht
    obtain rfl | ht := ht
    · exact stores_of_asleep h
    · exact hquiet t ht

theorem runFor_of_asleep (h : m.Asleep) (dots : Nat) : ∃ m', m.runFor dots = (m', .ok ()) ∧
    ∀ t ∈ m.turns dots, t.stores = false := by
  by_cases ho : dots ≤ m.overshoot
  · rw [runFor_of_le ho, turns, if_pos ho]
    exact ⟨_, rfl, nofun⟩
  · rw [runFor_of_lt (Nat.lt_of_not_le ho), turns, if_neg ho]
    exact spend_of_asleep h _

/-! ## Since the last turn that stored something -/

/-- So many dots have passed since the last turn of a log that stored something began. -/
def Quiet (log : List Turn) (dots : Nat) : Prop :=
  ∃ older turn later, log = older ++ turn :: later ∧ turn.stores = true ∧
    (∀ t ∈ later, t.stores = false) ∧ dots = turn.dots + dotsOf later

variable {log later : List Turn}

/-- Turns that store nothing prolong the quiet. -/
theorem Quiet.append (h : Quiet log dots) (hl : ∀ t ∈ later, t.stores = false) :
    Quiet (log ++ later) (dots + dotsOf later) := by
  obtain ⟨older, turn, rest, rfl, hturn, hrest, rfl⟩ := h
  refine ⟨older, turn, rest ++ later, by simp, hturn, fun t ht => ?_, ?_⟩
  · exact (List.mem_append.mp ht).elim (hrest t) (hl t)
  · rw [dotsOf_append, Nat.add_assoc]

theorem Quiet.prepend (h : Quiet log dots) (older : List Turn) : Quiet (older ++ log) dots := by
  obtain ⟨front, turn, rest, rfl, hturn, hrest, hdots⟩ := h
  exact ⟨older ++ front, turn, rest, (List.append_assoc _ _ _).symm, hturn, hrest, hdots⟩

/-- The quiet lasts for the last turn at least. -/
theorem exists_quiet (h : log.any (·.stores) = true) :
    ∃ dots, Quiet log dots ∧ ∃ t ∈ log.getLast?, t.dots ≤ dots := by
  induction log using List.reverseRecOn with
  | nil => cases h
  | append_singleton front t ih =>
    rw [List.getLast?_append]
    cases ht : t.stores with
    | true => exact ⟨t.dots, ⟨front, t, [], rfl, ht, nofun, rfl⟩, t, rfl, Nat.le_refl _⟩
    | false =>
      rw [List.any_append, List.any_cons, ht, List.any_nil, Bool.or_false, Bool.or_false] at h
      obtain ⟨dots, hquiet, -⟩ := ih h
      have hlater : ∀ t' ∈ [t], t'.stores = false := by simpa using ht
      exact ⟨_, hquiet.append hlater, t, rfl, Nat.le_add_left _ _⟩

end Machine

end DotMatrix
